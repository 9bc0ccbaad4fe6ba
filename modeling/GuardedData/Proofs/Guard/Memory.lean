import GuardedData.Proofs.Guard.Program
import GuardedData.Proofs.Heap.Walk

/-!
# Memory in use

`P.Alive t` says that the program keeps the object or array alive: it holds it,
or a live view does, or a cell that is alive contains it. A `Permitted` act
uses live handles only and places a new cell where none that is alive lies; the
address of a dead cell may come back. Then no two live handles share an address
(`Placed`).
-/

namespace GuardedData

/-- The value is the handle, or a map or set that holds it. -/
inductive Value.Holds : Value → Handle → Prop where
  | self (t : Handle) : Holds t.toValue t
  | key {entries : List (Value × Value)} {k w : Value} {t : Handle} :
      (k, w) ∈ entries → Holds k t → Holds (.map entries) t
  | entry {entries : List (Value × Value)} {k w : Value} {t : Handle} :
      (k, w) ∈ entries → Holds w t → Holds (.map entries) t
  | item {items : List Value} {x : Value} {t : Handle} :
      x ∈ items → Holds x t → Holds (.set items) t

/-- A value holds the handle that it is, and what its parts hold. -/
theorem Value.holds_iff {v : Value} {t : Handle} :
    v.Holds t ↔ v.handle? = some t ∨ ∃ x ∈ v.parts, x.Holds t := by
  constructor
  · intro h
    cases h with
    | self t => exact .inl t.handle?_toValue
    | key he h => exact .inr ⟨_, List.mem_flatMap.mpr ⟨_, he, List.mem_cons_self⟩, h⟩
    | entry he h =>
      exact .inr ⟨_, List.mem_flatMap.mpr ⟨_, he, List.mem_cons_of_mem _ List.mem_cons_self⟩, h⟩
    | item hx h => exact .inr ⟨_, hx, h⟩
  · rintro (h | ⟨x, hx, h⟩)
    · obtain rfl := handle?_eq_some_iff.mp h
      exact .self t
    · cases v with
      | map entries =>
        obtain ⟨⟨k, w⟩, he, hx⟩ := List.mem_flatMap.mp hx
        rcases List.mem_pair.mp hx with rfl | rfl
        · exact .key he h
        · exact .entry he h
      | set items => exact .item hx h
      | _ => cases hx

theorem Value.not_holds_of_scalar {v : Value} {t : Handle} (hv : v.handle? = none)
    (hp : v.parts = []) : ¬ v.Holds t := by
  rw [holds_iff, hv, hp]
  rintro (h | ⟨x, hx, -⟩)
  · cases h
  · cases hx

theorem Value.not_holds_bool (b : Bool) (t : Handle) : ¬ (Value.bool b).Holds t :=
  not_holds_of_scalar rfl rfl

theorem Handle.holds_toValue {t u : Handle} (h : t.toValue.Holds u) : u = t := by
  rcases Value.holds_iff.mp h with h | ⟨x, hx, -⟩
  · rw [t.handle?_toValue] at h
    exact (Option.some.inj h).symm
  · cases t <;> cases hx

/-- The act takes the value from the program. -/
def Act.Uses : Act → Value → Prop
  | .newObject _ p, x => ∃ k : String, p[k]? = some x
  | .newArray _ items, x => x ∈ items
  | .putObject r p, x => x = .object r ∨ ∃ k : String, p[k]? = some x
  | .putArray r items, x => x = .array r ∨ x ∈ items
  | .keep v, x | .wrap _ v _, x | .set _ _ v, x => x = v
  | _, _ => False

/-- Where the act places a new object or array. -/
def Act.address? : Act → Option Nat
  | .newObject address _ | .newArray address _ => some address
  | _ => none

namespace Program

/-- The program keeps the object or array alive. -/
inductive Alive (P : Program) : Handle → Prop where
  | held {v : Value} {t : Handle} : v ∈ P.held → v.Holds t → Alive P t
  | target {id : ViewId} {w : View} : P.store.view? id = some w → Alive P w.target
  | content {a t : Handle} {st : PathStep} {x : Value} : Alive P a →
      P.store.heap.child? a st = some x → x.Holds t → Alive P t

/-- The act uses live handles, and gives no address away that is in use. -/
structure Permitted (P : Program) (a : Act) : Prop where
  uses : ∀ x t, a.Uses x → x.Holds t → P.Alive t
  place : ∀ address, a.address? = some address →
    ∀ t, P.Alive t → P.store.heap.address t.ref ≠ address

theorem permitted_of_no_use {P : Program} {a : Act} (hu : ∀ x t, a.Uses x → ¬ x.Holds t)
    (ha : a.address? = none) : P.Permitted a := by
  refine ⟨fun x t hx ht => absurd ht (hu x t hx), fun address e => ?_⟩
  rw [ha] at e
  cases e

def New (P : Program) (t : Handle) : Act → Prop
  | .newObject .. => t = .object P.store.heap.next
  | .newArray .. => t = .array P.store.heap.next
  | _ => False

section
variable {P : Program} {a : Act} {t u : Handle}

/-! ## What an act keeps alive -/

theorem child?_setObject_cases {h : Heap} {r : Ref} {p : Properties} {st : PathStep} {x : Value}
    (e : (h.setObject r p).child? t st = some x) :
    (t = .object r ∧ ∃ k : String, p[k]? = some x) ∨ (t ≠ .object r ∧ h.child? t st = some x) := by
  by_cases ht : t = .object r
  · subst ht
    cases st with
    | field k => exact .inl ⟨rfl, k, by simpa [Heap.child?] using e⟩
    | index i => cases e
  · have same : h.SameCell (h.setObject r p) t := by
      cases t with
      | object s => exact Heap.object_setObject_ne h (fun e => ht (congrArg _ e.symm)) p
      | array s => rfl
    exact .inr ⟨ht, same.child? st ▸ e⟩

theorem child?_setArray_cases {h : Heap} {r : Ref} {items : List Value} {st : PathStep} {x : Value}
    (e : (h.setArray r items).child? t st = some x) :
    (t = .array r ∧ x ∈ items) ∨ (t ≠ .array r ∧ h.child? t st = some x) := by
  by_cases ht : t = .array r
  · subst ht
    cases st with
    | field k => cases e
    | index i =>
      have hi : items[i]? = some x := by simpa [Heap.child?] using e
      exact .inl ⟨rfl, List.mem_of_getElem? hi⟩
  · have same : h.SameCell (h.setArray r items) t := by
      cases t with
      | object s => rfl
      | array s => exact Heap.array_setArray_ne h (fun e => ht (congrArg _ e.symm)) items
    exact .inr ⟨ht, same.child? st ▸ e⟩

/-- What a cell contains after an act was there before, in a cell that is not new, or the act
put it there. -/
theorem child_of_act {st : PathStep} {x : Value}
    (e : (P.store.act a).heap.child? t st = some x) :
    a.Uses x ∨ (P.store.heap.child? t st = some x ∧ ¬ P.New t a) := by
  cases a with
  | newObject address p =>
    have e : (P.store.heap.setObject P.store.heap.next p).child? t st = some x := by
      cases t <;> cases st <;> exact e
    rcases child?_setObject_cases e with ⟨_, hk⟩ | ⟨hne, hc⟩
    · exact .inl hk
    · exact .inr ⟨hc, hne⟩
  | newArray address items =>
    have e : (P.store.heap.setArray P.store.heap.next items).child? t st = some x := by
      cases t <;> cases st <;> exact e
    rcases child?_setArray_cases e with ⟨_, hx⟩ | ⟨hne, hc⟩
    · exact .inl hx
    · exact .inr ⟨hc, hne⟩
  | newFunction name body => exact .inr ⟨by cases t <;> cases st <;> exact e, id⟩
  | putObject r p =>
    rcases child?_setObject_cases e with ⟨_, hk⟩ | ⟨_, hc⟩
    · exact .inl (.inr hk)
    · exact .inr ⟨hc, id⟩
  | putArray r items =>
    rcases child?_setArray_cases e with ⟨_, hx⟩ | ⟨_, hc⟩
    · exact .inl (.inr hx)
    · exact .inr ⟨hc, id⟩
  | wrap schema v o => exact .inr ⟨by simpa [Store.act] using e, id⟩
  | get i key =>
    refine .inr ⟨?_, id⟩
    simp only [Store.act] at e
    split at e
    · simpa using e
    · exact e
  | set i key v =>
    simp only [Store.act] at e
    split at e
    · next w _ =>
      rcases P.store.set_cases w key v with ⟨hs, _⟩ | ⟨st', hw, _, _, hs⟩ <;> rw [hs] at e
      · exact .inr ⟨e, id⟩
      · rcases Heap.child?_setSlot_cases hw e with ⟨_, _, hx⟩ | ⟨_, hc⟩
        · exact .inl hx
        · exact .inr ⟨hc, id⟩
    · exact .inr ⟨e, id⟩
  | hold i => exact .inr ⟨by simpa [Store.act] using e, id⟩
  | release i => exact .inr ⟨by simpa [Store.act] using e, id⟩
  | _ => exact .inr ⟨e, id⟩

/-- What is held after an act was held before, or the act made it or took it. -/
theorem held_of_act {v : Value} (hv : v ∈ (P.act a).held) (hh : v.Holds t) :
    v ∈ P.held ∨ a.Uses v ∨ P.New t a := by
  cases a with
  | newObject address p =>
    rcases List.mem_cons.mp hv with rfl | hv
    · exact .inr (.inr (Handle.holds_toValue (t := .object _) hh))
    · exact .inl hv
  | newArray address items =>
    rcases List.mem_cons.mp hv with rfl | hv
    · exact .inr (.inr (Handle.holds_toValue (t := .array _) hh))
    · exact .inl hv
  | newFunction name body =>
    rcases List.mem_cons.mp hv with rfl | hv
    · generalize e : Value.function _ = w at hh
      cases hh with
      | self t => cases t <;> cases e
      | _ => cases e
    · exact .inl hv
  | keep w =>
    rcases List.mem_cons.mp hv with e | hv
    · exact .inr (.inl e)
    · exact .inl hv
  | discard i => exact .inl (List.mem_of_mem_eraseIdx hv)
  | _ => exact .inl hv

theorem Alive.of_act (ok : P.Permitted a) (h : (P.act a).Alive t) : P.Alive t ∨ P.New t a := by
  induction h with
  | @held v t hv hh =>
    rcases held_of_act hv hh with hv | hu | hn
    · exact .inl (.held hv hh)
    · exact .inl (ok.uses v t hu hh)
    · exact .inr hn
  | @target id w e =>
    cases Store.origin_of_act e with
    | kept v hv hs => exact .inl (hs.target ▸ .target hv)
    | read i v key st _ hv _ _ hc _ _ _ => exact .inl (.content (.target hv) hc (.self _))
    | wrapped schema o ea _ _ _ _ =>
      subst ea
      exact .inl (ok.uses _ _ rfl (.self _))
  | @content b t st x _ hc hh ih =>
    rcases child_of_act hc with hu | ⟨hc, hn⟩
    · exact .inl (ok.uses x t hu hh)
    · rcases ih with hb | hb
      · exact .inl (.content hb hc hh)
      · exact absurd hb hn

/-! ## Addresses -/

/-- Where what is alive lies: below the next free number, and each cell at an address of its
own. -/
structure Placed (P : Program) : Prop where
  below : ∀ t, P.Alive t → t.ref < P.store.heap.next
  inj : ∀ t u, P.Alive t → P.Alive u →
    P.store.heap.address t.ref = P.store.heap.address u.ref → t = u

theorem not_alive_initial_empty (t : Handle) : ¬ (initial .empty).Alive t := by
  intro h
  induction h with
  | held hv _ => cases hv
  | target e => simp [initial, Store.ofHeap, Store.view?] at e
  | content _ _ _ ih => exact ih

theorem placed_initial_empty : (initial .empty).Placed :=
  ⟨fun t h => absurd h (not_alive_initial_empty t),
    fun t _ h => absurd h (not_alive_initial_empty t)⟩

theorem address_insert (h : Heap) (address r : Nat) :
    (h.addresses.insert h.next address)[r]?.getD r =
      if r = h.next then address else h.address r := by
  rw [Std.ExtTreeMap.getElem?_insert]
  by_cases e : r = h.next
  · simp [e]
  · rw [if_neg e, if_neg fun e' => e (Std.LawfulEqCmp.eq_of_compare e').symm]
    rfl

theorem addresses_act (P : Program) (ha : a.address? = none) :
    P.store.heap.next ≤ (P.store.act a).heap.next ∧
      (P.store.act a).heap.addresses = P.store.heap.addresses := by
  cases a with
  | newObject | newArray => cases ha
  | newFunction name body => exact ⟨Nat.le_succ _, rfl⟩
  | wrap schema v o => simp [Store.act]
  | get i key =>
    simp only [Store.act]
    split <;> simp
  | set i key v =>
    simp only [Store.act]
    split
    · next w _ =>
      rcases P.store.set_cases w key v with ⟨hs, _⟩ | ⟨_, _, _, _, hs⟩ <;> rw [hs]
      · exact ⟨Nat.le_refl _, rfl⟩
      · obtain ⟨hn, he⟩ := P.store.heap.addresses_setSlot w.target key v
        exact ⟨Nat.le_of_eq hn.symm, he⟩
    · exact ⟨Nat.le_refl _, rfl⟩
  | hold i => simp [Store.act]
  | release i => simp [Store.act]
  | _ => exact ⟨Nat.le_refl _, rfl⟩

/-- An act moves no cell, and the cell that it makes lies where the act places it. -/
theorem address_act (P : Program) (a : Act) :
    P.store.heap.next ≤ (P.store.act a).heap.next ∧
    (∀ r, r < P.store.heap.next → (P.store.act a).heap.address r = P.store.heap.address r) ∧
    ∀ t, P.New t a → t.ref < (P.store.act a).heap.next ∧
      a.address? = some ((P.store.act a).heap.address t.ref) := by
  have old : ∀ address r, r < P.store.heap.next →
      (P.store.heap.addresses.insert P.store.heap.next address)[r]?.getD r =
        P.store.heap.address r :=
    fun address r hr => (address_insert _ address r).trans (if_neg (Nat.ne_of_lt hr))
  have own : ∀ address, address =
      (P.store.heap.addresses.insert P.store.heap.next address)[P.store.heap.next]?.getD
        P.store.heap.next :=
    fun address => ((address_insert _ address _).trans (if_pos rfl)).symm
  have quiet : a.address? = none → P.store.heap.next ≤ (P.store.act a).heap.next ∧
      ∀ r, r < P.store.heap.next →
        (P.store.act a).heap.address r = P.store.heap.address r := by
    intro ha
    obtain ⟨hle, he⟩ := P.addresses_act ha
    exact ⟨hle, fun r _ => by rw [Heap.address, he, Heap.address]⟩
  cases a with
  | newObject address p =>
    refine ⟨Nat.le_succ _, old address, fun t ht => ?_⟩
    obtain rfl : t = .object P.store.heap.next := ht
    exact ⟨Nat.lt_succ_self _, congrArg some (own address)⟩
  | newArray address items =>
    refine ⟨Nat.le_succ _, old address, fun t ht => ?_⟩
    obtain rfl : t = .array P.store.heap.next := ht
    exact ⟨Nat.lt_succ_self _, congrArg some (own address)⟩
  | _ => exact ⟨(quiet rfl).1, (quiet rfl).2, fun _ ht => ht.elim⟩

theorem Placed.act (hp : P.Placed) (ok : P.Permitted a) : (P.act a).Placed := by
  obtain ⟨hle, hold, hnew⟩ := P.address_act a
  constructor
  · intro t ht
    rcases ht.of_act ok with ht | ht
    · exact Nat.lt_of_lt_of_le (hp.below t ht) hle
    · exact (hnew t ht).1
  · intro t u ht hu e
    have apart : ∀ {t u}, P.New t a → P.Alive u →
        (P.store.act a).heap.address t.ref ≠ (P.store.act a).heap.address u.ref := by
      intro t u ht hu e
      refine ok.place _ (hnew t ht).2 u hu ?_
      rw [e, hold _ (hp.below u hu)]
    rcases ht.of_act ok with ht | ht <;> rcases hu.of_act ok with hu | hu
    · rw [store_act, hold _ (hp.below t ht), hold _ (hp.below u hu)] at e
      exact hp.inj t u ht hu e
    · exact absurd e.symm (apart hu ht)
    · exact absurd e (apart ht hu)
    · cases a with
      | newObject address p => exact ht.trans hu.symm
      | newArray address items => exact ht.trans hu.symm
      | _ => exact ht.elim

end

end Program

end GuardedData
