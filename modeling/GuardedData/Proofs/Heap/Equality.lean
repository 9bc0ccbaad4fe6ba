import GuardedData.Proofs.Guard.Sharing
import GuardedData.Proofs.Heap.Fresh

/-!
# Equality without cycles

Equality comes in three parts (`eqWith_iff`): values are `Matched` as far as
they are scalars, what maps and sets hold is equal item by item, and handles
are compared in a way of their own, which looks at identity first
(`eqHandles_iff`). Each part is symmetric and transitive, and a value equals
itself just if it does not hold a NaN outside of its objects and arrays
(`HoldsNaN`). A value that `Unwinds` holds nothing that holds itself; below so
many levels of handles as there are cells nothing is left in it, so that
equality up to that depth is equality of contents (`Unwinds.eq_unfold`).
-/

namespace GuardedData

theorem Value.sizeOf_lt_of_mem_parts {v x : Value} (hx : x ∈ v.parts) : sizeOf x < sizeOf v := by
  cases v with
  | map entries =>
    obtain ⟨e, he, hx⟩ := List.mem_flatMap.mp hx
    obtain ⟨k, w⟩ := e
    have hlt := List.sizeOf_lt_of_mem he
    simp only [Prod.mk.sizeOf_spec] at hlt
    simp only [List.mem_cons, List.not_mem_nil, or_false] at hx
    rcases hx with rfl | rfl <;> simp only [Value.map.sizeOf_spec] <;> omega
  | set items =>
    have hlt : sizeOf x < sizeOf items := List.sizeOf_lt_of_mem hx
    simp only [Value.set.sizeOf_spec]
    omega
  | _ => cases hx

/-- Induction on what maps and sets hold. -/
theorem Value.induct {P : Value → Prop} (step : ∀ v, (∀ x ∈ v.parts, P x) → P v) (v : Value) :
    P v :=
  step v fun x hx =>
    have := Value.sizeOf_lt_of_mem_parts hx
    Value.induct step x
termination_by sizeOf v

/-! ## Numbers -/

section
open Float.Model
variable {u w z : UnpackedFloat}

/-- The number without the sign of a zero, unless it is a NaN. -/
def unsigned? : UnpackedFloat → Option UnpackedFloat
  | .notANumber => none
  | .zero _ => some (.zero .positive)
  | u => some u

theorem compare_then_eq_iff {m n : Nat} {e f : Int} :
    (compare e f).then (compare m n) = .eq ↔ e = f ∧ m = n := by
  rw [Ordering.then_eq_eq, Std.compare_eq_iff_eq, Std.compare_eq_iff_eq]

theorem exists_unsigned?_of_compare (h : u.compare w = some .eq) :
    ∃ n, unsigned? u = some n ∧ unsigned? w = some n := by
  -- The comparison splits on the signs; finite numbers of one sign need more than evaluation.
  rcases u with (_ | _) | _ | _ | ⟨_ | _, m, e, hm⟩ <;>
    rcases w with (_ | _) | _ | _ | ⟨_ | _, n, f, hn⟩ <;>
    first
    | exact ⟨_, rfl, rfl⟩
    | cases h
    | skip
  · obtain ⟨rfl, rfl⟩ := compare_then_eq_iff.mp (Ordering.swap_eq_eq.mp (Option.some.inj h))
    exact ⟨_, rfl, rfl⟩
  · obtain ⟨rfl, rfl⟩ := compare_then_eq_iff.mp (Option.some.inj h)
    exact ⟨_, rfl, rfl⟩

theorem compare_self_of_ne (h : u ≠ .notANumber) : u.compare u = some .eq := by
  rcases u with (_ | _) | _ | _ | ⟨_ | _, m, e, hm⟩
  any_goals rfl
  · exact absurd rfl h
  · exact congrArg some (congrArg Ordering.swap (compare_then_eq_iff.mpr ⟨rfl, rfl⟩))
  · exact congrArg some (compare_then_eq_iff.mpr ⟨rfl, rfl⟩)

theorem compare_of_unsigned? {n : UnpackedFloat} (hu : unsigned? u = some n)
    (hw : unsigned? w = some n) : u.compare w = some .eq := by
  cases u <;> cases w <;> cases hu <;> cases hw <;>
    first
    | rfl
    | exact compare_self_of_ne nofun

/-- Equal numbers differ at most in the sign of a zero. -/
theorem unpacked_beq_iff :
    u.beq w = true ↔ ∃ n, unsigned? u = some n ∧ unsigned? w = some n :=
  beq_iff_eq.trans
    ⟨exists_unsigned?_of_compare, fun ⟨_, hu, hw⟩ => compare_of_unsigned? hu hw⟩

theorem unpacked_beq_symm (h : u.beq w = true) : w.beq u = true := by
  obtain ⟨n, hu, hw⟩ := unpacked_beq_iff.mp h
  exact unpacked_beq_iff.mpr ⟨n, hw, hu⟩

theorem unpacked_beq_trans (huw : u.beq w = true) (hwz : w.beq z = true) : u.beq z = true := by
  obtain ⟨n, hu, hw⟩ := unpacked_beq_iff.mp huw
  obtain ⟨n', hw', hz⟩ := unpacked_beq_iff.mp hwz
  obtain rfl := Option.some.inj (hw.symm.trans hw')
  exact unpacked_beq_iff.mpr ⟨n, hu, hz⟩

theorem unpacked_beq_self_iff : u.beq u = true ↔ ¬ u.isNaN = true := by
  cases u with
  | notANumber => exact iff_of_false nofun fun h => h rfl
  | _ => exact iff_of_true (beq_iff_eq.mpr (compare_self_of_ne nofun)) nofun

instance partialEquivBEq_float : PartialEquivBEq Float := ⟨unpacked_beq_symm, unpacked_beq_trans⟩

instance partialEquivBEq_float32 : PartialEquivBEq Float32 :=
  ⟨unpacked_beq_symm, unpacked_beq_trans⟩

theorem float_beq_self_iff {x : Float} : (x == x) = true ↔ ¬ x.isNaN = true :=
  unpacked_beq_self_iff

theorem float32_beq_self_iff {x : Float32} : (x == x) = true ↔ ¬ x.isNaN = true :=
  unpacked_beq_self_iff

end

/-! ## Typed arrays -/

namespace TypedArray

theorem beq_symm {a b : TypedArray} (h : a.beq b = true) : b.beq a = true := by
  cases a <;> cases b <;> first | exact PartialEquivBEq.symm h | cases h

theorem beq_trans {a b c : TypedArray} (hab : a.beq b = true) (hbc : b.beq c = true) :
    a.beq c = true := by
  cases a <;> cases b <;> first
    | cases hab
    | cases c <;> first | exact PartialEquivBEq.trans hab hbc | cases hbc

theorem kind_eq_of_beq {a b : TypedArray} (h : a.beq b = true) : a.kind = b.kind := by
  cases a <;> cases b <;> first | rfl | cases h

end TypedArray

namespace Value

/-- The values are equal as far as they are scalars; of anything else the kinds are. -/
inductive Matched : Value → Value → Prop where
  | undefined : Matched .undefined .undefined
  | null : Matched .null .null
  | bool (b : Bool) : Matched (.bool b) (.bool b)
  | number {x y : Float} : (x == y) = true → Matched (.number x) (.number y)
  | bigint (n : Int) : Matched (.bigint n) (.bigint n)
  | string (s : String) : Matched (.string s) (.string s)
  | symbol (s : Symbol) : Matched (.symbol s) (.symbol s)
  | date (t : Timestamp) : Matched (.date t) (.date t)
  | function {f g : Function} : f.body = g.body → Matched (.function f) (.function g)
  | map (a b : List (Value × Value)) : Matched (.map a) (.map b)
  | set (a b : List Value) : Matched (.set a) (.set b)
  | bytes (content : List UInt8) : Matched (.bytes content) (.bytes content)
  | typedArray {a b : TypedArray} : a.beq b = true → Matched (.typedArray a) (.typedArray b)
  | object (r s : Ref) : Matched (.object r) (.object s)
  | array (r s : Ref) : Matched (.array r) (.array s)

/-- A NaN is in the value, and not only in one of its objects and arrays. -/
inductive HoldsNaN : Value → Prop where
  | number {x : Float} : x.isNaN = true → HoldsNaN (.number x)
  | float32 {items : List Float32} {x : Float32} : x ∈ items → x.isNaN = true →
      HoldsNaN (.typedArray (.float32 items))
  | float64 {items : List Float} {x : Float} : x ∈ items → x.isNaN = true →
      HoldsNaN (.typedArray (.float64 items))
  | part {v x : Value} : x ∈ v.parts → HoldsNaN x → HoldsNaN v

section
variable {v w a b c : Value} {f g : Handle → Handle → Bool}

/-! ## Scalars -/

theorem Matched.symm (h : Matched a b) : Matched b a := by
  cases h with
  | number h => exact .number (PartialEquivBEq.symm h)
  | function h => exact .function h.symm
  | typedArray h => exact .typedArray (TypedArray.beq_symm h)
  | _ => constructor

theorem Matched.trans (hab : Matched a b) (hbc : Matched b c) : Matched a c := by
  cases hab with
  | number h => cases hbc with | number h' => exact .number (PartialEquivBEq.trans h h')
  | function h => cases hbc with | function h' => exact .function (h.trans h')
  | typedArray h =>
    cases hbc with | typedArray h' => exact .typedArray (TypedArray.beq_trans h h')
  | _ => cases hbc; constructor

theorem Matched.kind_eq (h : Matched a b) : a.kind = b.kind := by
  cases h with
  | typedArray h => exact congrArg Kind.typedArray (TypedArray.kind_eq_of_beq h)
  | _ => rfl

/-! ## Parts -/

theorem eqItemsWith_iff {xs ys : List Value} : eqItemsWith f xs ys = true ↔
    List.Forall₂ (fun x y => eqWith f x y = true) xs ys :=
  Related.iff_forall₂ rfl (fun _ _ => rfl) (fun _ _ => rfl) fun _ _ _ _ => rfl

theorem eqEntriesWith_iff {xs ys : List (Value × Value)} : eqEntriesWith f xs ys = true ↔
    List.Forall₂ (fun x y => eqWith f x y = true) (parts (.map xs)) (parts (.map ys)) := by
  show _ ↔ List.Forall₂ _ (xs.flatMap fun e => [e.1, e.2]) (ys.flatMap fun e => [e.1, e.2])
  induction xs generalizing ys with
  | nil =>
    cases ys with
    | nil => exact ⟨fun _ => .nil, fun _ => rfl⟩
    | cons y ys => exact ⟨nofun, nofun⟩
  | cons x xs ih =>
    cases ys with
    | nil => exact ⟨nofun, nofun⟩
    | cons y ys =>
      simp only [eqEntriesWith, Bool.and_eq_true, ih, List.flatMap_cons, List.cons_append,
        List.nil_append, List.forall₂_cons, and_assoc]

theorem matched_of_eqWith (h : eqWith f v w = true) : Matched v w := by
  cases v with
  | undefined | null => cases w <;> first | exact .undefined | exact .null | cases h
  | map xs => cases w with | map ys => exact .map xs ys | _ => cases h
  | set xs => cases w with | set ys => exact .set xs ys | _ => cases h
  | object r => cases w with | object s => exact .object r s | _ => cases h
  | array r => cases w with | array s => exact .array r s | _ => cases h
  | number x => cases w with | number y => exact .number h | _ => cases h
  | typedArray x => cases w with | typedArray y => exact .typedArray h | _ => cases h
  | function f => cases w with | function g => exact .function (eq_of_beq h) | _ => cases h
  | bool x => cases w with | bool y => exact eq_of_beq h ▸ .bool x | _ => cases h
  | bigint x => cases w with | bigint y => exact eq_of_beq h ▸ .bigint x | _ => cases h
  | string x => cases w with | string y => exact eq_of_beq h ▸ .string x | _ => cases h
  | symbol x => cases w with | symbol y => exact eq_of_beq h ▸ .symbol x | _ => cases h
  | date x => cases w with | date y => exact eq_of_beq h ▸ .date x | _ => cases h
  | bytes x => cases w with | bytes y => exact eq_of_beq h ▸ .bytes x | _ => cases h

theorem Matched.eqWith_iff (hm : Matched v w) : eqWith f v w = true ↔
    List.Forall₂ (fun x y => eqWith f x y = true) v.parts w.parts ∧
      Option.Rel (fun t u => f t u = true) v.handle? w.handle? := by
  cases hm with
  | map a b => exact ⟨fun h => ⟨eqEntriesWith_iff.mp h, .none⟩, fun h => eqEntriesWith_iff.mpr h.1⟩
  | set a b => exact ⟨fun h => ⟨eqItemsWith_iff.mp h, .none⟩, fun h => eqItemsWith_iff.mpr h.1⟩
  | object r s | array r s =>
    refine ⟨fun h => ⟨.nil, .some h⟩, fun ⟨_, h⟩ => ?_⟩
    cases h with
    | some h => exact h
  | number h | typedArray h => exact ⟨fun _ => ⟨.nil, .none⟩, fun _ => h⟩
  | function h => exact ⟨fun _ => ⟨.nil, .none⟩, fun _ => beq_iff_eq.mpr h⟩
  | undefined | null => exact ⟨fun _ => ⟨.nil, .none⟩, fun _ => rfl⟩
  | _ => exact ⟨fun _ => ⟨.nil, .none⟩, fun _ => beq_self_eq_true _⟩

theorem eqWith_iff : eqWith f v w = true ↔ Matched v w ∧
    List.Forall₂ (fun x y => eqWith f x y = true) v.parts w.parts ∧
      Option.Rel (fun t u => f t u = true) v.handle? w.handle? :=
  ⟨fun h => ⟨matched_of_eqWith h, (matched_of_eqWith h).eqWith_iff.mp h⟩,
    fun h => h.1.eqWith_iff.mpr h.2⟩

/-! ## Symmetry, transitivity, reflexivity -/

theorem eqWith_symm (hf : ∀ {t u}, f t u = true → f u t = true) (h : eqWith f v w = true) :
    eqWith f w v = true := by
  induction v using Value.induct generalizing w with
  | step v ih =>
    obtain ⟨hm, hp, hh⟩ := eqWith_iff.mp h
    exact eqWith_iff.mpr ⟨hm.symm, Related.forall₂_symm (fun x hx y _ => ih x hx) hp,
      Related.rel_symm hf hh⟩

theorem eqWith_trans (hf : ∀ {t u s}, f t u = true → f u s = true → f t s = true)
    (hab : eqWith f a b = true) (hbc : eqWith f b c = true) : eqWith f a c = true := by
  induction a using Value.induct generalizing b c with
  | step a ih =>
    obtain ⟨hm, hp, hh⟩ := eqWith_iff.mp hab
    obtain ⟨hm', hp', hh'⟩ := eqWith_iff.mp hbc
    exact eqWith_iff.mpr ⟨hm.trans hm', Related.forall₂_trans (fun x hx y z => ih x hx) hp hp',
      Related.rel_trans (U := fun t u => f t u = true) hf hh hh'⟩

/-- A NaN in a value is one of its scalars, or in one of its parts. -/
theorem holdsNaN_iff : v.HoldsNaN ↔ ¬ Matched v v ∨ ∃ x ∈ v.parts, x.HoldsNaN := by
  constructor
  · intro h
    cases h with
    | @number x hx =>
      refine .inl fun hm => ?_
      cases hm with
      | number h => exact float_beq_self_iff.mp h hx
    | @float32 items x hm hx =>
      refine .inl fun h => ?_
      cases h with
      | typedArray h => exact float32_beq_self_iff.mp (Related.list_beq_self_iff.mp h x hm) hx
    | @float64 items x hm hx =>
      refine .inl fun h => ?_
      cases h with
      | typedArray h => exact float_beq_self_iff.mp (Related.list_beq_self_iff.mp h x hm) hx
    | part hx h => exact .inr ⟨_, hx, h⟩
  · rintro (h | ⟨x, hx, h⟩)
    · by_contra hn
      refine h ?_
      cases v with
      | number x => exact .number (float_beq_self_iff.mpr fun hx => hn (.number hx))
      | typedArray t =>
        refine .typedArray ?_
        cases t with
        | float32 items =>
          exact Related.list_beq_self_iff.mpr fun x hx =>
            float32_beq_self_iff.mpr fun h => hn (.float32 hx h)
        | float64 items =>
          exact Related.list_beq_self_iff.mpr fun x hx =>
            float_beq_self_iff.mpr fun h => hn (.float64 hx h)
        | _ => exact beq_self_eq_true _
      | function f => exact .function rfl
      | _ => constructor
    · exact .part hx h

/-- What is in an object or array does not count. -/
theorem not_holdsNaN_toValue (t : Handle) : ¬ t.toValue.HoldsNaN := by
  cases t <;> exact fun h => by cases h; contradiction

/-- Where handles equal themselves, all that does not hold a NaN does. -/
theorem eqWith_self_iff (hf : ∀ t, f t t = true) : eqWith f v v = true ↔ ¬ v.HoldsNaN := by
  induction v using Value.induct with
  | step v ih =>
    have hh : Option.Rel (fun t u => f t u = true) v.handle? v.handle? := Related.rel_refl hf _
    have hp : (∀ x ∈ v.parts, eqWith f x x = true) ↔ ¬ ∃ x ∈ v.parts, x.HoldsNaN := by
      simp only [not_exists, not_and]
      exact forall₂_congr ih
    rw [eqWith_iff, List.forall₂_same, holdsNaN_iff, not_or, not_not, hp, and_iff_left hh]

/-! ## Handles held -/

/-- Equality looks at the handles that the values hold. -/
theorem eqWith_imp (hfg : ∀ t u, v.Holds t → w.Holds u → f t u = true → g t u = true)
    (h : eqWith f v w = true) : eqWith g v w = true := by
  induction v using Value.induct generalizing w with
  | step v ih =>
    obtain ⟨hm, hp, hh⟩ := eqWith_iff.mp h
    refine eqWith_iff.mpr ⟨hm, Related.forall₂_imp hp fun x hx y hy hxy => ?_,
      Related.rel_imp hh fun t u ht hu => hfg t u (holds_iff.mpr (.inl ht))
        (holds_iff.mpr (.inl hu))⟩
    exact ih x hx (fun t u ht hu => hfg t u (holds_iff.mpr (.inr ⟨x, hx, ht⟩))
      (holds_iff.mpr (.inr ⟨y, hy, hu⟩))) hxy

theorem eqWith_congr (hfg : ∀ t u, v.Holds t → w.Holds u → f t u = g t u) :
    eqWith f v w = eqWith g v w :=
  Bool.eq_iff_iff.mpr ⟨eqWith_imp fun t u ht hu => (Bool.eq_iff_iff.mp (hfg t u ht hu)).mp,
    eqWith_imp fun t u ht hu => (Bool.eq_iff_iff.mp (hfg t u ht hu)).mpr⟩

end

end Value

namespace Heap

/-- Everything in the value can be followed to an end: nothing in it holds itself, and all of it
has cells. -/
structure Unwinds (h : Heap) (v : Value) : Prop where
  acyclic : ∀ (t : Handle) (st : PathStep) (x : Value), h.Graph v t → h.child? t st = some x →
    ¬ h.Graph x t
  allocated : ∀ t, h.Graph v t → h.Allocated t

/-- Every cell holds only cells that were made before it. -/
def Layered (h : Heap) : Prop :=
  ∀ t st x u, h.child? t st = some x → x.Holds u → u.ref < t.ref ∧ h.Allocated u

/-- At most so many levels of handles are in the value. -/
def Levels (h : Heap) : Nat → Value → Prop
  | 0, v => ∀ t, ¬ v.Holds t
  | n + 1, v => ∀ t st x, v.Holds t → h.child? t st = some x → h.Levels n x

section
variable {h : Heap} {a b c v w x y : Value} {t u s : Handle} {st : PathStep} {n : Nat}
  {eq eq' : Value → Value → Bool}

/-! ## Contents -/

theorem eqHandles_iff : h.eqHandles eq t u = true ↔ t = u ∨ t.toValue.kind = u.toValue.kind ∧
    ∀ st, Option.Rel (fun x y => eq x y = true) (h.child? t st) (h.child? u st) := by
  cases t with
  | object r =>
    cases u with
    | object s =>
      rw [eqHandles, Bool.or_eq_true, beq_iff_eq, Properties.pairwise_toList_iff,
        Handle.object.injEq]
      refine or_congr_right ⟨fun hk => ⟨rfl, fun st => ?_⟩, fun hc k => hc.2 (.field k)⟩
      cases st with
      | field k => exact hk k
      | index i => exact .none
    | array s => exact ⟨nofun, nofun⟩
  | array r =>
    cases u with
    | object s => exact ⟨nofun, nofun⟩
    | array s =>
      rw [eqHandles, Bool.or_eq_true, beq_iff_eq, Properties.pairwise_eq_true_iff,
        Related.forall₂_iff_getElem?, Handle.array.injEq]
      refine or_congr_right ⟨fun hi => ⟨rfl, fun st => ?_⟩, fun hc i => hc.2 (.index i)⟩
      cases st with
      | field k => exact .none
      | index i => exact hi i

theorem eqHandles_self (t : Handle) : h.eqHandles eq t t = true := eqHandles_iff.mpr (.inl rfl)

theorem eqHandles_symm (he : ∀ {x y}, eq x y = true → eq y x = true)
    (htu : h.eqHandles eq t u = true) : h.eqHandles eq u t = true := by
  rcases eqHandles_iff.mp htu with rfl | ⟨hk, hc⟩
  · exact htu
  · exact eqHandles_iff.mpr (.inr ⟨hk.symm, fun st => Related.rel_symm he (hc st)⟩)

theorem eqHandles_trans (he : ∀ {x y z}, eq x y = true → eq y z = true → eq x z = true)
    (htu : h.eqHandles eq t u = true) (hus : h.eqHandles eq u s = true) :
    h.eqHandles eq t s = true := by
  rcases eqHandles_iff.mp htu with rfl | ⟨hk, hc⟩
  · exact hus
  rcases eqHandles_iff.mp hus with rfl | ⟨hk', hc'⟩
  · exact htu
  · exact eqHandles_iff.mpr (.inr ⟨hk.trans hk', fun st =>
      Related.rel_trans (U := fun x y => eq x y = true) he (hc st) (hc' st)⟩)

theorem eqHandles_imp (he : ∀ st st' x y, h.child? t st = some x → h.child? u st' = some y →
    eq x y = true → eq' x y = true) (htu : h.eqHandles eq t u = true) :
    h.eqHandles eq' t u = true := by
  refine eqHandles_iff.mpr ((eqHandles_iff.mp htu).imp_right fun ⟨hk, hc⟩ => ⟨hk, fun st => ?_⟩)
  exact Related.rel_imp (hc st) fun x y hx hy => he st st x y hx hy

theorem eqHandles_congr (he : ∀ st st' x y, h.child? t st = some x → h.child? u st' = some y →
    eq x y = eq' x y) : h.eqHandles eq t u = h.eqHandles eq' t u :=
  Bool.eq_iff_iff.mpr
    ⟨eqHandles_imp fun st st' x y hx hy => (Bool.eq_iff_iff.mp (he st st' x y hx hy)).mp,
      eqHandles_imp fun st st' x y hx hy => (Bool.eq_iff_iff.mp (he st st' x y hx hy)).mpr⟩

/-! ## Equality down to a depth -/

theorem eqUpTo_symm (hab : h.eqUpTo n a b = true) : h.eqUpTo n b a = true := by
  induction n generalizing a b with
  | zero => exact Value.eqWith_symm PartialEquivBEq.symm hab
  | succ n ih => exact Value.eqWith_symm (eqHandles_symm ih) hab

theorem eqUpTo_trans (hab : h.eqUpTo n a b = true) (hbc : h.eqUpTo n b c = true) :
    h.eqUpTo n a c = true := by
  induction n generalizing a b c with
  | zero => exact Value.eqWith_trans PartialEquivBEq.trans hab hbc
  | succ n ih => exact Value.eqWith_trans (eqHandles_trans ih) hab hbc

theorem eqUpTo_self_iff : h.eqUpTo n v v = true ↔ ¬ v.HoldsNaN := by
  cases n with
  | zero => exact Value.eqWith_self_iff fun t => beq_self_eq_true t
  | succ n => exact Value.eqWith_self_iff eqHandles_self

theorem matched_of_eqUpTo (hab : h.eqUpTo n a b = true) : a.Matched b := by
  cases n <;> exact Value.matched_of_eqWith hab

theorem eqUpTo_of_same (hs : a.same b = true) : h.eqUpTo n a b = true := by
  cases a with
  | object r =>
    cases b with
    | object s =>
      obtain rfl : r = s := of_decide_eq_true hs
      exact eqUpTo_self_iff.mpr (Value.not_holdsNaN_toValue (.object r))
    | _ => cases hs
  | array r =>
    cases b with
    | array s =>
      obtain rfl : r = s := of_decide_eq_true hs
      exact eqUpTo_self_iff.mpr (Value.not_holdsNaN_toValue (.array r))
    | _ => cases hs
  | function f =>
    cases b with
    | function g => cases n <;> exact beq_iff_eq.mpr (of_decide_eq_true hs)
    | _ => cases hs
  | _ => cases hs

/-! ## Values without cycles -/

/-- Below its levels nothing of a value is left to compare. -/
theorem eqUpTo_succ (ha : h.Levels n a) (hb : h.Levels n b) :
    h.eqUpTo n a b = h.eqUpTo (n + 1) a b := by
  induction n generalizing a b with
  | zero => exact Value.eqWith_congr fun t u ht _ => absurd ht (ha t)
  | succ n ih =>
    refine Value.eqWith_congr fun t u ht hu => eqHandles_congr fun st st' x y hx hy => ?_
    exact ih (ha t st x ht hx) (hb u st' y hu hy)

theorem Graph.child (ht : v.Holds t) (hc : h.child? t st = some x) (hu : h.Graph x u) :
    h.Graph v u := by
  induction hu with
  | held hh => exact .inner (.held ht) hc hh
  | inner _ hc' hh ih => exact .inner ih hc' hh

/-- What is held at some step can be followed to an end too. -/
theorem Unwinds.child (hv : h.Unwinds v) (ht : v.Holds t) (hc : h.child? t st = some x) :
    h.Unwinds x where
  acyclic u st' y hu := hv.acyclic u st' y (.child ht hc hu)
  allocated u hu := hv.allocated u (.child ht hc hu)

/-- The handles on the way down to a value are all different, so that there are no more levels
left in it than other cells. -/
theorem Unwinds.levels {above : List Handle} (hv : h.Unwinds v) (hn : above.Nodup)
    (ha : ∀ t ∈ above, h.Allocated t) (hnot : ∀ t ∈ above, ¬ h.Graph v t)
    (hle : h.depth ≤ above.length + n) : h.Levels n v := by
  induction n generalizing v above with
  | zero =>
    intro t ht
    have hn' : (t :: above).Nodup := List.nodup_cons.mpr ⟨fun hm => hnot t hm (.held ht), hn⟩
    have hlen := length_le_depth hn' (List.forall_mem_cons.mpr ⟨hv.allocated t (.held ht), ha⟩)
    rw [List.length_cons] at hlen
    omega
  | succ n ih =>
    intro t st x ht hc
    have hn' : (t :: above).Nodup := List.nodup_cons.mpr ⟨fun hm => hnot t hm (.held ht), hn⟩
    refine ih (hv.child ht hc) hn' (List.forall_mem_cons.mpr ⟨hv.allocated t (.held ht), ha⟩)
      (List.forall_mem_cons.mpr ⟨hv.acyclic t st x (.held ht) hc, fun u hu hxu => ?_⟩)
      (by rw [List.length_cons]; omega)
    exact hnot u hu (.child ht hc hxu)

/-- Without cycles equality is equality of contents: of two different objects or arrays, what they
hold is compared. -/
theorem Unwinds.eq_unfold (ha : h.Unwinds a) (hb : h.Unwinds b) :
    h.eq a b = Value.eqWith (h.eqHandles h.eq) a b := by
  have levels {v : Value} (hv : h.Unwinds v) : h.Levels h.depth v :=
    hv.levels List.nodup_nil nofun nofun (by rw [List.length_nil, Nat.zero_add])
  exact eqUpTo_succ (levels ha) (levels hb)

/-! ## Heaps made bottom up -/

theorem layered_empty : empty.Layered := by
  intro t st x u hc
  cases t <;> cases st <;> simp [child?, object, array, empty] at hc

/-- A new cell may hold any cells that there are. -/
theorem Layered.cell {h' : Heap} (hl : h.Layered) (hg : h.Grows h') (ht : t.ref = h.next)
    (hother : ∀ u, u ≠ t → h.SameCell h' u)
    (hx : ∀ x ∈ h'.contents t.toValue, ∀ u, x.Holds u → u.ref < h.next ∧ h.Allocated u) :
    h'.Layered := by
  intro a st x u hc hu
  by_cases hat : a = t
  · subst hat
    obtain ⟨hlt, ha⟩ := hx x (mem_contents_of_child? hc) u hu
    exact ⟨ht ▸ hlt, hg.allocated u ha⟩
  · rw [(hother a hat).child?] at hc
    obtain ⟨hlt, ha⟩ := hl a st x u hc hu
    exact ⟨hlt, hg.allocated u ha⟩

theorem Layered.array {items : List Value} (hl : h.Layered)
    (hx : ∀ x ∈ items, ∀ u, x.Holds u → u.ref < h.next ∧ h.Allocated u) :
    (h.allocArray items).2.Layered := by
  refine hl.cell (grows_allocArray h items) (t := .array h.next) rfl (fun u hu => ?_) ?_
  · cases u with
    | object r => rfl
    | array r => exact array_setArray_ne h (fun e => hu (congrArg Handle.array e.symm)) items
  · have same : (h.allocArray items).2.array h.next = items := (Grows.refl _).array_allocArray
    show ∀ x ∈ (h.allocArray items).2.array h.next, _
    rw [same]
    exact hx

theorem Layered.object {pairs : Keyed Value} (hl : h.Layered)
    (hx : ∀ p ∈ pairs, ∀ u, p.2.Holds u → u.ref < h.next ∧ h.Allocated u) :
    (h.allocFields pairs).2.Layered := by
  refine hl.cell (grows_allocObject h _) (t := .object h.next) rfl (fun u hu => ?_) ?_
  · cases u with
    | object r => exact object_setObject_ne h (fun e => hu (congrArg Handle.object e.symm)) _
    | array r => rfl
  · have same : (h.allocFields pairs).2.object h.next = Properties.ofPairs pairs :=
      (Grows.refl _).object_allocObject
    show ∀ x ∈ ((h.allocFields pairs).2.object h.next).toList.map Prod.snd, _
    rw [same]
    intro x hm
    obtain ⟨⟨k, x⟩, hp, rfl⟩ := List.mem_map.mp hm
    have hk := Std.ExtTreeMap.mem_toList_iff_getElem?_eq_some.mp hp
    rw [Properties.getElem?_ofPairs] at hk
    exact hx (k, x) (List.mem_reverse.mp (Keyed.mem_of_get? hk))

/-- What is made bottom up can be followed to an end. -/
theorem Layered.unwinds (hl : h.Layered) (hv : ∀ t, v.Holds t → h.Allocated t) : h.Unwinds v where
  acyclic t st x _ hc hx := by
    have lower : t.ref < t.ref := hx.closed (G := fun u => u.ref < t.ref)
      (fun u hu => (hl t st x u hc hu).1) fun a st' y u ha hc' hu =>
        (hl a st' y u hc' hu).1.trans ha
    exact Nat.lt_irrefl _ lower
  allocated t ht := ht.closed hv fun a st x u _ hc hu => (hl a st x u hc hu).2

end

end Heap

end GuardedData
