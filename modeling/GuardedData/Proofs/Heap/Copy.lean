import GuardedData.Catalogue
import GuardedData.Proofs.Heap.Fresh
import GuardedData.Proofs.Related

/-!
# Copying a value down to a depth

`src.copy n v g` copies what a value of the heap `src` holds into new cells of
the heap `g`, through at most `n` levels of handles; a handle below them becomes
an empty cell. Every handle is copied anew wherever it is met, so that the copy
is a finite tree (`built_copy`) also if the value shares its parts or holds
itself. `h.Mirrors g n v w` says that `w` has the form of `v` for `n` levels and
ends there; so does a copy (`mirrors_copy`).
-/

namespace GuardedData

namespace Value

mutual

/-- The copy of a value, given how handles are copied. -/
def copyWith (handles : Handle → Heap → Value × Heap) : Value → Heap → Value × Heap
  | .map entries, g =>
    let (entries, g) := copyEntriesWith handles entries g
    (.map entries, g)
  | .set items, g =>
    let (items, g) := copyItemsWith handles items g
    (.set items, g)
  | .object r, g => handles (.object r) g
  | .array r, g => handles (.array r) g
  | v, g => (v, g)

def copyItemsWith (handles : Handle → Heap → Value × Heap) :
    List Value → Heap → List Value × Heap
  | [], g => ([], g)
  | v :: rest, g =>
    let (v, g) := copyWith handles v g
    let (rest, g) := copyItemsWith handles rest g
    (v :: rest, g)

def copyEntriesWith (handles : Handle → Heap → Value × Heap) :
    List (Value × Value) → Heap → List (Value × Value) × Heap
  | [], g => ([], g)
  | (k, v) :: rest, g =>
    let (k, g) := copyWith handles k g
    let (v, g) := copyWith handles v g
    let (rest, g) := copyEntriesWith handles rest g
    ((k, v) :: rest, g)

end

theorem exists_handle_of_kind_eq {v : Value} {t : Handle} (hk : v.kind = t.toValue.kind) :
    ∃ u : Handle, v = u.toValue := by
  cases t with
  | object r => cases v <;> first | exact ⟨.object _, rfl⟩ | cases hk
  | array r => cases v <;> first | exact ⟨.array _, rfl⟩ | cases hk

/-- The values are of one kind, and the same unless they hold others. -/
def Shell (v w : Value) : Prop := v.kind = w.kind ∧ (v.handle? = none → v.parts = [] → w = v)

end Value

theorem Keyed.keys_zip_sublist (ks : List String) (vs : List Value) :
    (Keyed.keys (ks.zip vs)).Sublist ks := by
  induction ks generalizing vs with
  | nil => exact .slnil
  | cons k ks ih =>
    cases vs with
    | nil => exact List.nil_sublist _
    | cons v vs => exact (ih vs).cons_cons k

namespace Heap

/-- A new cell with the slots of the handle, which hold other values. -/
def refill (src : Heap) (t : Handle) (vs : List Value) (g : Heap) : Value × Heap :=
  match t with
  | .object r => g.allocFields ((Keyed.keys (src.object r).toList).zip vs)
  | .array _ => g.allocArray vs

/-- The copy of a handle with so many levels below it. -/
def copyHandle (src : Heap) : Nat → Handle → Heap → Value × Heap
  | 0, t, g => src.refill t [] g
  | n + 1, t, g =>
    let (vs, g) := Value.copyItemsWith (src.copyHandle n) (src.contents t.toValue) g
    src.refill t vs g

/-- The copy of a value with so many levels below its handles. -/
def copy (src : Heap) (n : Nat) (v : Value) (g : Heap) : Value × Heap :=
  v.copyWith (src.copyHandle n) g

/-- The other value has the same form slot by slot for `n` levels, and ends there. -/
def Mirrors (h g : Heap) : Nat → Value → Value → Prop
  | 0, v, w => v.Shell w ∧
      ∀ (t u : Handle) st, v = t.toValue → w = u.toValue → g.child? u st = none
  | n + 1, v, w => v.Shell w ∧
      ∀ (t u : Handle) st, v = t.toValue → w = u.toValue →
        Option.Rel (Mirrors h g n) (h.child? t st) (g.child? u st)

section
variable {src h g g₁ g' : Heap} {v w : Value} {vs ws : List Value} {t u : Handle} {st : PathStep}
  {p : Path} {n : Nat} {handles : Handle → Heap → Value × Heap}

/-! ## A copy is a tree in new cells -/

mutual

theorem built_copyWith
    (hh : ∀ t g, Built g (handles t g).2 [(handles t g).1]) :
    ∀ (v : Value) (g : Heap), Built g (v.copyWith handles g).2 [(v.copyWith handles g).1]
  | .map entries, g => .inline (v := .map _) (built_copyEntriesWith hh entries g) rfl
  | .set items, g => .inline (v := .set _) (built_copyItemsWith hh items g) rfl
  | .object r, g => hh (.object r) g
  | .array r, g => hh (.array r) g
  | .undefined, g | .null, g | .bool _, g | .number _, g | .bigint _, g | .string _, g
  | .symbol _, g | .date _, g | .function _, g | .bytes _, g | .typedArray _, g =>
    built_scalar g rfl rfl

theorem built_copyItemsWith
    (hh : ∀ t g, Built g (handles t g).2 [(handles t g).1]) :
    ∀ (vs : List Value) (g : Heap),
      Built g (Value.copyItemsWith handles vs g).2 (Value.copyItemsWith handles vs g).1
  | [], g => built_nil g
  | v :: vs, g => (built_copyWith hh v g).cons (built_copyItemsWith hh vs _)

theorem built_copyEntriesWith
    (hh : ∀ t g, Built g (handles t g).2 [(handles t g).1]) :
    ∀ (es : List (Value × Value)) (g : Heap),
      Built g (Value.copyEntriesWith handles es g).2
        (Value.map (Value.copyEntriesWith handles es g).1).parts
  | [], g => built_nil g
  | (k, v) :: es, g =>
    (built_copyWith hh k g).cons ((built_copyWith hh v _).cons (built_copyEntriesWith hh es _))

end

theorem length_copyItemsWith (handles : Handle → Heap → Value × Heap) (vs : List Value)
    (g : Heap) : (Value.copyItemsWith handles vs g).1.length = vs.length := by
  induction vs generalizing g with
  | nil => rfl
  | cons v vs ih => exact congrArg (· + 1) (ih _)

theorem Built.refill (hb : Built g g₁ vs) (hle : vs.length ≤ (src.contents t.toValue).length) :
    Built g (src.refill t vs g₁).2 [(src.refill t vs g₁).1] := by
  cases t with
  | object r =>
    have hlen : vs.length ≤ (Keyed.keys (src.object r).toList).length := by
      rw [Keyed.keys, List.length_map]
      simpa [contents, Handle.toValue] using hle
    refine Built.object ((List.map_snd_zip hlen).symm ▸ hb) ?_
    exact (Properties.distinct_toList _).sublist (Keyed.keys_zip_sublist _ _)
  | array r => exact hb.array

theorem built_copyHandle (src : Heap) (n : Nat) (t : Handle) (g : Heap) :
    Built g (src.copyHandle n t g).2 [(src.copyHandle n t g).1] := by
  induction n generalizing t g with
  | zero => exact (built_nil g).refill (Nat.zero_le _)
  | succ n ih =>
    exact (built_copyItemsWith ih _ g).refill (Nat.le_of_eq (length_copyItemsWith _ _ _))

theorem built_copy (src : Heap) (n : Nat) (v : Value) (g : Heap) :
    Built g (src.copy n v g).2 [(src.copy n v g).1] :=
  built_copyWith (built_copyHandle src n) v g

/-! ## A copy has the form of the value -/

theorem Mirrors.shell (hm : h.Mirrors g n v w) : v.Shell w := by
  cases n with
  | zero => exact hm.1
  | succ n => exact hm.1


theorem mirrors_of_scalar (hs : v.Shell w) (hv : v.handle? = none) (n : Nat) :
    h.Mirrors g n v w := by
  have hne (t : Handle) : v ≠ t.toValue := fun e => by
    rw [e, Handle.handle?_toValue] at hv
    cases hv
  cases n with
  | zero => exact ⟨hs, fun t _ _ e => absurd e (hne t)⟩
  | succ n => exact ⟨hs, fun t _ _ e => absurd e (hne t)⟩

/-- What mirrors a value for `n` levels meets no more handles one inside the other. -/
theorem Mirrors.shallow (hm : h.Mirrors g n v w) : g.Shallow (n + 1) w := by
  intro p
  induction p generalizing n v w with
  | nil => exact fun _ _ => Nat.succ_pos _
  | cons st p ih =>
    intro t hp
    obtain ⟨u, x, rfl, hc, hp⟩ := follow_cons_inv hp
    obtain ⟨a, rfl⟩ := Value.exists_handle_of_kind_eq hm.shell.1
    cases n with
    | zero =>
      rw [hm.2 a u st rfl rfl] at hc
      cases hc
    | succ n =>
      have hrel := hm.2 a u st rfl rfl
      rw [hc] at hrel
      generalize h.child? a st = y at hrel
      cases hrel with
      | some hx => exact Nat.succ_lt_succ (ih hx t hp)

theorem mirrors_toValue (hk : t.toValue.kind = u.toValue.kind)
    (hc : ∀ st, Option.Rel (h.Mirrors g n) (h.child? t st) (g.child? u st)) :
    h.Mirrors g (n + 1) t.toValue u.toValue := by
  refine ⟨⟨hk, fun ht => by simp at ht⟩, fun t' u' st ht hu => ?_⟩
  rw [← Handle.toValue_inj.mp ht, ← Handle.toValue_inj.mp hu]
  exact hc st

/-- Where handles are copied in form, so is every value. The copies stay as they are while the
heap grows. -/
theorem mirrors_copyWith
    (hm : ∀ t g g', (handles t g).2.Grows g' → h.Mirrors g' n t.toValue (handles t g).1)
    (v : Value) (g : Heap) (hg : (v.copyWith handles g).2.Grows g') :
    h.Mirrors g' n v (v.copyWith handles g).1 := by
  cases v with
  | object r => exact hm (.object r) g g' hg
  | array r => exact hm (.array r) g g' hg
  | map entries =>
    have hv : (Value.map entries).Shell (.map (Value.copyEntriesWith handles entries g).1) := by
      refine ⟨rfl, fun _ he => ?_⟩
      cases entries with
      | nil => rfl
      | cons e es => cases he
    exact mirrors_of_scalar hv rfl n
  | set items =>
    have hv : (Value.set items).Shell (.set (Value.copyItemsWith handles items g).1) := by
      refine ⟨rfl, fun _ hi => ?_⟩
      cases items with
      | nil => rfl
      | cons x xs => cases hi
    exact mirrors_of_scalar hv rfl n
  | _ => exact mirrors_of_scalar ⟨rfl, fun _ _ => rfl⟩ rfl n

theorem mirrors_copyItemsWith
    (hb : ∀ t g, Built g (handles t g).2 [(handles t g).1])
    (hm : ∀ t g g', (handles t g).2.Grows g' → h.Mirrors g' n t.toValue (handles t g).1)
    (vs : List Value) (g : Heap) (hg : (Value.copyItemsWith handles vs g).2.Grows g') :
    List.Forall₂ (h.Mirrors g' n) vs (Value.copyItemsWith handles vs g).1 := by
  induction vs generalizing g with
  | nil => exact .nil
  | cons v vs ih =>
    have grows := (built_copyItemsWith hb vs (v.copyWith handles g).2).grows
    exact .cons (mirrors_copyWith hm v g (grows.trans hg)) (ih _ hg)

theorem grows_refill (src : Heap) (t : Handle) (vs : List Value) (g : Heap) :
    g.Grows (src.refill t vs g).2 := by
  cases t with
  | object r => exact grows_allocObject g _
  | array r => exact grows_allocArray g vs

theorem forall₂_zip_keys {R : Value → Value → Prop} {ps : Keyed Value}
    (hr : List.Forall₂ R (ps.map Prod.snd) ws) :
    List.Forall₂ (fun p q => p.1 = q.1 ∧ R p.2 q.2) ps ((Keyed.keys ps).zip ws) := by
  induction ps generalizing ws with
  | nil => exact .nil
  | cons p ps ih =>
    cases hr with
    | cons hx hr => exact .cons ⟨rfl, hx⟩ (ih hr)

/-- A new cell holds in the slots of the handle what it was filled with. -/
theorem refill_cases {R : Value → Value → Prop} (hg : (src.refill t ws g).2.Grows g')
    (hr : List.Forall₂ R (src.contents t.toValue) ws) :
    ∃ u : Handle, (src.refill t ws g).1 = u.toValue ∧ t.toValue.kind = u.toValue.kind ∧
      ∀ st, Option.Rel R (src.child? t st) (g'.child? u st) := by
  cases t with
  | object r =>
    refine ⟨.object g.next, rfl, rfl, fun st => ?_⟩
    cases st with
    | index i => exact .none
    | field k =>
      have hd : Keyed.Distinct ((Keyed.keys (src.object r).toList).zip ws) :=
        (Properties.distinct_toList _).sublist (Keyed.keys_zip_sublist _ _)
      have hrel := Keyed.rel_get? (forall₂_zip_keys hr) k
      rw [Properties.get?_toList, ← Properties.getElem?_ofPairs_of_distinct hd] at hrel
      show Option.Rel R _ (g'.object g.next)[k]?
      rw [hg.object_allocObject]
      exact hrel
  | array r =>
    refine ⟨.array g.next, rfl, rfl, fun st => ?_⟩
    cases st with
    | field k => exact .none
    | index i =>
      show Option.Rel R _ (g'.array g.next)[i]?
      rw [hg.array_allocArray]
      exact Related.rel_getElem? hr i

/-- A new cell without contents is where a copy ends. -/
theorem mirrors_refill_nil (hg : (src.refill t [] g).2.Grows g') :
    src.Mirrors g' 0 t.toValue (src.refill t [] g).1 := by
  cases t with
  | object r =>
    refine ⟨⟨rfl, fun ht => by cases ht⟩, fun t u st _ hu => ?_⟩
    obtain rfl : Handle.object g.next = u := Handle.toValue_inj.mp hu
    cases st with
    | index i => rfl
    | field k =>
      show (g'.object g.next)[k]? = none
      rw [hg.object_allocObject, List.zip_nil_right]
      rfl
  | array r =>
    refine ⟨⟨rfl, fun ht => by cases ht⟩, fun t u st _ hu => ?_⟩
    obtain rfl : Handle.array g.next = u := Handle.toValue_inj.mp hu
    exact child?_of_array_nil hg.array_allocArray st

theorem mirrors_copyHandle (src : Heap) (n : Nat) (t : Handle) (g g' : Heap)
    (hg : (src.copyHandle n t g).2.Grows g') :
    src.Mirrors g' n t.toValue (src.copyHandle n t g).1 := by
  induction n generalizing t g g' with
  | zero => exact mirrors_refill_nil hg
  | succ n ih =>
    have hr := mirrors_copyItemsWith (built_copyHandle src n) ih (src.contents t.toValue) g
      ((grows_refill src t _ _).trans hg)
    obtain ⟨u, hu, hk, hc⟩ := refill_cases hg hr
    rw [copyHandle, hu]
    exact mirrors_toValue hk hc

theorem mirrors_copy (src : Heap) (n : Nat) (v : Value) (g : Heap) :
    src.Mirrors (src.copy n v g).2 n v (src.copy n v g).1 :=
  mirrors_copyWith (mirrors_copyHandle src n) v g (.refl _)

end

end Heap

end GuardedData
