import Mathlib.Algebra.Group.Nat.Defs

/-!
# Finite binary64 numbers

When sums of powers of two are rounded to binary64, the result is infinite only
if it is too great. `Small b x` says that `x` is finite and its last binary
place is at most `b`, which is far from too great for the numbers of 64 bits
that readers start from (`small_ofNat`) and for their quotients (`small_div`).
A product may be infinite, but is a number (`isFinite_mul`).
-/

namespace GuardedData.Binary64

open Float.Model
open Float.Model.UnpackedFloat (Sign Accuracy ExtendedMantissa roundWithAccuracy packComponents
  unpackExponent unpackMantissa unpackExponent_packComponents unpackMantissa_packComponents)

/-- A finite number whose last binary place is at most `b`. -/
def Bounded (b : Int) : UnpackedFloat → Prop
  | .zero _ => True
  | .finite _ _ e _ => e ≤ b
  | _ => False

theorem Bounded.isFinite {b : Int} {u : UnpackedFloat} (hu : Bounded b u) :
    u.isFinite = true := by
  cases u <;> first | rfl | cases hu

theorem Bounded.neg {b : Int} {u : UnpackedFloat} (hu : Bounded b u) : Bounded b u.neg := by
  cases u <;> exact hu

/-! ## Rounding -/

theorem mantissa_shiftRight (em : ExtendedMantissa) (k : Nat) :
    (em >>> k).mantissa = em.mantissa / 2 ^ k := by
  show (k.repeat ExtendedMantissa.shiftRightOne em).mantissa = _
  induction k with
  | zero => simp [Nat.repeat]
  | succ k ih =>
    rw [Nat.repeat, Nat.pow_succ, ← Nat.div_div_eq_div_mul, ← ih]
    rfl

theorem roundedMantissa_le (em : ExtendedMantissa) : em.roundedMantissa ≤ em.mantissa + 1 := by
  obtain ⟨m, r, t⟩ := em
  have h : m % 2 < 2 := Nat.mod_lt _ (by decide)
  cases r <;> cases t <;>
    simp only [ExtendedMantissa.roundedMantissa, ExtendedMantissa.accuracy,
      Accuracy.roundToNearestEven] <;> omega

theorem le_roundedMantissa (em : ExtendedMantissa) : em.mantissa ≤ em.roundedMantissa := by
  obtain ⟨m, r, t⟩ := em
  cases r <;> cases t <;>
    simp only [ExtendedMantissa.roundedMantissa, ExtendedMantissa.accuracy,
      Accuracy.roundToNearestEven] <;> omega

theorem mantissa_ofMantissaAndAccuracy (m : Nat) (a : Accuracy) :
    (ExtendedMantissa.ofMantissaAndAccuracy m a).mantissa = m := by
  cases a with
  | exact => rfl
  | inexact o => cases o <;> rfl

theorem log2_lt_of_lt {m k : Nat} (hk : 0 < k) (h : m < 2 ^ k) : m.log2 < k := by
  by_cases hm : m = 0
  · rw [hm]; exact hk
  · exact (Nat.log2_lt hm).mpr h

theorem lt_two_pow_of_log2_lt {m k : Nat} (h : m.log2 < k) : m < 2 ^ k := by
  by_cases hm : m = 0
  · rw [hm]
    exact Nat.two_pow_pos k
  · exact (Nat.log2_lt hm).mp h

theorem log2_div_two_pow {m j : Nat} (h : j ≤ m.log2) (hm : m ≠ 0) :
    (m / 2 ^ j).log2 = m.log2 - j := by
  obtain ⟨hlo, hhi⟩ := (Nat.log2_eq_iff hm).mp rfl
  have hlo' : 2 ^ (m.log2 - j) ≤ m / 2 ^ j := by
    rwa [Nat.le_div_iff_mul_le (Nat.two_pow_pos j), ← Nat.pow_add, Nat.sub_add_cancel h]
  have hhi' : m / 2 ^ j < 2 ^ (m.log2 - j + 1) := by
    rw [Nat.div_lt_iff_lt_mul (Nat.two_pow_pos j), ← Nat.pow_add]
    rwa [show m.log2 - j + 1 + j = m.log2 + 1 by omega]
  have hne : m / 2 ^ j ≠ 0 := by
    have := Nat.two_pow_pos (m.log2 - j)
    omega
  exact (Nat.log2_eq_iff hne).mpr ⟨hlo', hhi'⟩

theorem targetExponent_eq (m : Nat) (e : Int) :
    Format.binary64.targetExponent (totalExponent m e) = max (m.log2 + e - 52) (-1074) := by
  show max (m.log2 + 1 + e - 53) (-1074) = _
  omega

theorem finite_congr {s : Sign} {m m' : Nat} {e e' : Int} {hm : 0 < m} {hm' : 0 < m'}
    (h : m = m') (he : e = e') :
    UnpackedFloat.finite s m e hm = UnpackedFloat.finite s m' e' hm' := by
  subst h he
  rfl

/-- Rounding drops `k` bits, so that the others have their place, and `j` more if the carry
makes one too many. -/
theorem roundWithAccuracy_cases (s : Sign) (m : Nat) (e : Int) (a : Accuracy) :
    ∃ r k j : Nat, k = max (max (m.log2 + e - 52) (-1074)) e - e ∧
      m / 2 ^ k ≤ r ∧ r ≤ m / 2 ^ k + 1 ∧
      j = max (max (r.log2 + (e + k) - 52) (-1074)) (e + k) - (e + k) ∧
      ((r / 2 ^ j = 0 ∧ roundWithAccuracy Format.binary64 s m e a = .zero s) ∨
        ∃ h, roundWithAccuracy Format.binary64 s m e a = .finite s (r / 2 ^ j) (e + k + j) h) := by
  obtain ⟨k, hk⟩ : ∃ k, k = (Format.binary64.targetExponent (totalExponent m e) - e).toNat :=
    ⟨_, rfl⟩
  obtain ⟨r, hr⟩ : ∃ r, r = (ExtendedMantissa.ofMantissaAndAccuracy m a >>> k).roundedMantissa :=
    ⟨_, rfl⟩
  obtain ⟨j, hj⟩ : ∃ j, j =
      (Format.binary64.targetExponent (totalExponent r (e + k)) - (e + k)).toNat := ⟨_, rfl⟩
  have hmantissa :
      (ExtendedMantissa.ofMantissaAndAccuracy r .exact >>> j).mantissa = r / 2 ^ j := by
    rw [mantissa_shiftRight, mantissa_ofMantissaAndAccuracy]
  have hround : roundWithAccuracy Format.binary64 s m e a =
      if h : (ExtendedMantissa.ofMantissaAndAccuracy r .exact >>> j).mantissa = 0 then .zero s
      else .finite s _ (e + k + j) (Nat.pos_of_ne_zero h) := by
    subst hj hr hk
    rfl
  have hle := roundedMantissa_le (ExtendedMantissa.ofMantissaAndAccuracy m a >>> k)
  have hge := le_roundedMantissa (ExtendedMantissa.ofMantissaAndAccuracy m a >>> k)
  rw [mantissa_shiftRight, mantissa_ofMantissaAndAccuracy, ← hr] at hle hge
  rw [targetExponent_eq] at hk hj
  refine ⟨r, k, j, by omega, hge, hle, by omega, ?_⟩
  rw [hround]
  by_cases h : (ExtendedMantissa.ofMantissaAndAccuracy r .exact >>> j).mantissa = 0
  · exact .inl ⟨hmantissa ▸ h, dif_pos h⟩
  · exact .inr ⟨Nat.pos_of_ne_zero (hmantissa ▸ h), (dif_neg h).trans (finite_congr hmantissa rfl)⟩

/-- Rounding moves the last place no further than to the 53rd bit, and one up. -/
theorem bounded_roundWithAccuracy {m : Nat} {e b : Int} (s : Sign) (a : Accuracy)
    (hm : m.log2 + e < 52 + b) (he : e < b) (hb : -1074 < b) :
    Bounded b (roundWithAccuracy Format.binary64 s m e a) := by
  obtain ⟨r, k, j, hk, _, hr, hj, ⟨_, h⟩ | ⟨_, h⟩⟩ := roundWithAccuracy_cases s m e a <;> rw [h]
  · trivial
  · have hdiv : m / 2 ^ k < 2 ^ 53 := by
      rw [Nat.div_lt_iff_lt_mul (Nat.two_pow_pos k), ← Nat.pow_add]
      exact lt_two_pow_of_log2_lt (by omega)
    have hlog : r.log2 < 54 := log2_lt_of_lt (by decide) (by omega)
    show e + k + j ≤ b
    omega

/-- A number of 53 bits or more keeps 53 of them. -/
theorem normal_roundWithAccuracy {m : Nat} {e : Int} (s : Sign) (a : Accuracy)
    (hm : 52 ≤ m.log2) (he : -1074 ≤ e) : ∃ n f hn,
      roundWithAccuracy Format.binary64 s m e a = .finite s n f hn ∧ n.log2 = 52 ∧
        m.log2 + e - 52 ≤ f := by
  have hm0 : m ≠ 0 := by rintro rfl; simp at hm
  obtain ⟨r, k, j, hk, hr, hr', hj, h⟩ := roundWithAccuracy_cases s m e a
  have hlog : (m / 2 ^ k).log2 = 52 := by
    rw [log2_div_two_pow (by omega) hm0]
    omega
  have hq0 : m / 2 ^ k ≠ 0 := by
    intro h0
    rw [h0] at hlog
    cases hlog
  obtain ⟨hlo, hhi⟩ := (Nat.log2_eq_iff hq0).mp hlog
  have hr0 : r ≠ 0 := by omega
  have hr52 : 52 ≤ r.log2 := (Nat.le_log2 hr0).mpr (by omega)
  have hr53 : r.log2 < 54 := (Nat.log2_lt hr0).mpr (by omega)
  have hfinal : (r / 2 ^ j).log2 = 52 := by
    rw [log2_div_two_pow (by omega) hr0]
    omega
  rcases h with ⟨h0, _⟩ | ⟨hpos, h⟩
  · rw [h0] at hfinal
    cases hfinal
  · exact ⟨_, _, _, h, hfinal, by omega⟩

/-! ## Packing -/

section
variable {v : BitVec Format.binary64.numBits}

theorem unpack_infinity (he : unpackExponent v = -1#11) (hm : unpackMantissa v = 0#52) :
    ∃ s, UnpackedFloat.unpack Format.binary64 v = .infinity s :=
  ⟨_, (if_pos he).trans (if_pos hm)⟩

theorem unpack_notANumber (he : unpackExponent v = -1#11) (hm : unpackMantissa v ≠ 0#52) :
    UnpackedFloat.unpack Format.binary64 v = .notANumber :=
  (if_pos he).trans (if_neg hm)

theorem unpack_zero (he : unpackExponent v = 0#11) (hm : unpackMantissa v = 0#52) :
    ∃ s, UnpackedFloat.unpack Format.binary64 v = .zero s := by
  have hne : unpackExponent v ≠ -1#11 := by
    rw [he]
    decide
  exact ⟨_, (if_neg hne).trans ((if_pos he).trans (dif_pos hm))⟩

/-- The least exponent stands for the same places as the one above it. -/
theorem unpack_finite (he : unpackExponent v ≠ -1#11)
    (hm : ¬ (unpackExponent v = 0#11 ∧ unpackMantissa v = 0#52)) :
    ∃ s m e hm, UnpackedFloat.unpack Format.binary64 v = .finite s m e hm ∧ m < 2 ^ 53 ∧
      e = max ((unpackExponent v).toNat : Int) 1 - 1075 := by
  by_cases h0 : unpackExponent v = 0#11
  · refine ⟨_, _, _, _, (if_neg he).trans ((if_pos h0).trans (dif_neg fun h => hm ⟨h0, h⟩)),
      Nat.lt_trans (unpackMantissa v).isLt (by decide), ?_⟩
    show ((unpackExponent v).toNat : Int) - 1075 + 1 = _
    rw [h0]
    decide
  · refine ⟨_, _, _, _, (if_neg he).trans (if_neg h0), (1#1 ++ unpackMantissa v).isLt, ?_⟩
    have hpos : (unpackExponent v).toNat ≠ 0 := fun h => h0 (BitVec.eq_of_toNat_eq h)
    show ((unpackExponent v).toNat : Int) - 1075 = _
    omega

theorem bounded_unpack {b : Int} (hne : unpackExponent v ≠ -1#11)
    (hx : (unpackExponent v).toNat - 1075 ≤ b) (hb : -1074 ≤ b) :
    Bounded b (UnpackedFloat.unpack Format.binary64 v) := by
  by_cases hm : unpackExponent v = 0#11 ∧ unpackMantissa v = 0#52
  · obtain ⟨s, h⟩ := unpack_zero hm.1 hm.2
    rw [h]
    trivial
  · obtain ⟨s, m, e, hm, h, -, he⟩ := unpack_finite hne hm
    rw [h]
    show e ≤ b
    omega

theorem exponent_ne_of_unpack (h : (UnpackedFloat.unpack Format.binary64 v).isFinite = true) :
    unpackExponent v ≠ -1#11 := by
  intro e
  by_cases hm : unpackMantissa v = 0#52
  · obtain ⟨s, hs⟩ := unpack_infinity e hm
    rw [hs] at h
    cases h
  · rw [unpack_notANumber e hm] at h
    cases h

theorem bounded_of_isFinite (h : (UnpackedFloat.unpack Format.binary64 v).isFinite = true) :
    Bounded 971 (UnpackedFloat.unpack Format.binary64 v) := by
  have hne := exponent_ne_of_unpack h
  refine bounded_unpack hne ?_ (by decide)
  have h1 : (unpackExponent v).toNat ≠ 2047 := fun e => hne (BitVec.eq_of_toNat_eq e)
  have h2 : (unpackExponent v).toNat < 2 ^ 11 := (unpackExponent v).isLt
  omega

theorem mantissa_lt {s : Sign} {m : Nat} {e : Int} {hm : 0 < m}
    (h : UnpackedFloat.unpack Format.binary64 v = .finite s m e hm) : m < 2 ^ 53 := by
  have hne : unpackExponent v ≠ -1#11 := exponent_ne_of_unpack (by rw [h]; rfl)
  by_cases hz : unpackExponent v = 0#11 ∧ unpackMantissa v = 0#52
  · obtain ⟨s', h'⟩ := unpack_zero hz.1 hz.2
    cases h'.symm.trans h
  · obtain ⟨s', m', e', hm', h', hlt, -⟩ := unpack_finite hne hz
    obtain ⟨-, rfl, -⟩ := UnpackedFloat.finite.inj (h'.symm.trans h)
    exact hlt

end

/-- The bits that a finite number is packed into. -/
theorem pack_finite (s : Sign) (m : Nat) (e : Int) (hm : 0 < m) :
    ∃ x y, UnpackedFloat.pack Format.binary64 (.finite s m e hm) =
        packComponents Format.binary64 s x y ∧
      ((2047 ≤ (e + 1075).toNat ∧ x = -1#11 ∧ y = 0#52) ∨
        (e + 1075).toNat < 2047 ∧ m.log2 = 52 ∧ x = BitVec.ofNat 11 (e + 1075).toNat ∨
        (e + 1075).toNat < 2047 ∧ m.log2 ≠ 52 ∧ x = 0#11) := by
  have hx : (e + 1023 + 52).toNat = (e + 1075).toNat := by omega
  by_cases hinf : 2 ^ 11 ≤ (e + 1023 + 52).toNat + 1
  · exact ⟨_, _, if_pos hinf, .inl ⟨by omega, rfl, rfl⟩⟩
  · by_cases hlog : m.log2 + 1 = 53
    · exact ⟨_, _, (if_neg hinf).trans (if_pos hlog), .inr (.inl ⟨by omega, by omega, hx ▸ rfl⟩)⟩
    · exact ⟨_, _, (if_neg hinf).trans (if_neg hlog), .inr (.inr ⟨by omega, by omega, rfl⟩)⟩

theorem toNat_ofNat_of_lt {x : Nat} (hx : x < 2047) :
    (BitVec.ofNat 11 x).toNat = x ∧ BitVec.ofNat 11 x ≠ -1#11 := by
  have hfit : (BitVec.ofNat 11 x).toNat = x := by
    rw [BitVec.toNat_ofNat]
    omega
  refine ⟨hfit, fun h => ?_⟩
  have h : x = 2047 := hfit.symm.trans (congrArg BitVec.toNat h)
  omega

/-- What is not too great is the same after packing, as far as its last place goes. -/
theorem Bounded.unpack_pack {b : Int} {u : UnpackedFloat} (hu : Bounded b u) (hb : -1074 ≤ b)
    (hb' : b ≤ 971) :
    Bounded b (UnpackedFloat.unpack Format.binary64 (UnpackedFloat.pack Format.binary64 u)) := by
  cases u with
  | infinity | notANumber => cases hu
  | zero s =>
    show Bounded b (UnpackedFloat.unpack _ (packComponents Format.binary64 s 0#11 0#52))
    refine bounded_unpack ?_ ?_ hb <;> rw [unpackExponent_packComponents]
    · decide
    · show ((0 : Nat) : Int) - 1075 ≤ b
      omega
  | finite s m e hm =>
    have he : e ≤ b := hu
    obtain ⟨x, y, h, hx⟩ := pack_finite s m e hm
    rw [h]
    refine bounded_unpack ?_ ?_ hb <;> rw [unpackExponent_packComponents]
    · rcases hx with ⟨hx, -⟩ | ⟨hx, -, rfl⟩ | ⟨-, -, rfl⟩
      · omega
      · exact (toNat_ofNat_of_lt hx).2
      · decide
    · rcases hx with ⟨hx, -⟩ | ⟨hx, -, rfl⟩ | ⟨-, -, rfl⟩
      · omega
      · rw [(toNat_ofNat_of_lt hx).1]
        omega
      · show ((0 : Nat) : Int) - 1075 ≤ b
        omega

theorem isNaN_unpack_packComponents (s : Sign) {x : BitVec 11} {y : BitVec 52}
    (h : x = -1#11 → y = 0#52) :
    (UnpackedFloat.unpack Format.binary64 (packComponents Format.binary64 s x y)).isNaN =
      false := by
  have hx : unpackExponent (packComponents Format.binary64 s x y) = x :=
    unpackExponent_packComponents
  have hy : unpackMantissa (packComponents Format.binary64 s x y) = y :=
    unpackMantissa_packComponents
  by_cases he : x = -1#11
  · obtain ⟨t, ht⟩ := unpack_infinity (hx.trans he) (hy.trans (h he))
    rw [ht]
    rfl
  by_cases hz : x = 0#11 ∧ y = 0#52
  · obtain ⟨t, ht⟩ := unpack_zero (hx.trans hz.1) (hy.trans hz.2)
    rw [ht]
    rfl
  · obtain ⟨t, m, e, hm, ht, -⟩ := unpack_finite (fun e => he (hx.symm.trans e))
      fun e => hz ⟨hx.symm.trans e.1, hy.symm.trans e.2⟩
    rw [ht]
    rfl

theorem isNaN_unpack_pack {u : UnpackedFloat} (hu : u.isNaN = false) :
    (UnpackedFloat.unpack Format.binary64 (UnpackedFloat.pack Format.binary64 u)).isNaN =
      false := by
  cases u with
  | notANumber => cases hu
  | infinity s => exact isNaN_unpack_packComponents s fun _ => rfl
  | zero s => exact isNaN_unpack_packComponents s fun _ => rfl
  | finite s m e hm =>
    obtain ⟨x, y, h, hx⟩ := pack_finite s m e hm
    rw [h]
    refine isNaN_unpack_packComponents s fun he => ?_
    rcases hx with ⟨-, -, rfl⟩ | ⟨hx, -, rfl⟩ | ⟨-, -, rfl⟩
    · rfl
    · exact absurd he (toNat_ofNat_of_lt hx).2
    · cases he

/-! ## Operations -/

/-- The number is finite, and its last binary place is at most `b`. -/
def Small (b : Int) (x : Float) : Prop := Bounded b x.toModel.unpack

theorem small_pack {b : Int} {u : UnpackedFloat} (hu : Bounded b u) (hb : -1074 ≤ b)
    (hb' : b ≤ 971) : Small b (.ofModel (.pack u)) :=
  hu.unpack_pack hb hb'

theorem Small.isFinite {b : Int} {x : Float} (hx : Small b x) : x.isFinite = true :=
  Bounded.isFinite hx

theorem isFinite_neg {x : Float} (hx : x.isFinite = true) : (-x).isFinite = true :=
  ((bounded_of_isFinite hx).neg.unpack_pack (by decide) (by decide)).isFinite

theorem beq_self {x : Float} (hx : x.isFinite = true) : (x == x) = true := by
  have hu : x.toModel.unpack.isFinite = true := hx
  show x.toModel.unpack.beq x.toModel.unpack = true
  generalize x.toModel.unpack = u at hu
  cases u with
  | zero s => rfl
  | finite s m e hm =>
    have same : (compare e e).then (compare m m) = .eq := by
      rw [Std.ReflOrd.compare_self, Std.ReflOrd.compare_self]
      rfl
    cases s with
    | positive =>
      show (some ((compare e e).then (compare m m)) == some .eq) = true
      rw [same]
      rfl
    | negative =>
      show (some ((compare e e).then (compare m m)).swap == some .eq) = true
      rw [same]
      rfl
  | notANumber => cases hu
  | infinity s => cases hu

theorem isNaN_mul {u v : UnpackedFloat} (hu : u.isFinite = true) (hv : v.isFinite = true) :
    (UnpackedFloat.mul Format.binary64 u v).isNaN = false := by
  match u, v with
  | .zero _, .zero _ | .zero _, .finite .. | .finite .., .zero _ => rfl
  | .finite s m e _, .finite t n f _ =>
    show (roundWithAccuracy Format.binary64 (s * t) (m * n) (e + f) .exact).isNaN = false
    obtain ⟨r, k, j, -, -, -, -, ⟨-, h⟩ | ⟨_, h⟩⟩ :=
      roundWithAccuracy_cases (s * t) (m * n) (e + f) .exact <;> rw [h] <;> rfl

/-- Finite numbers have a finite product, unless it is infinite. -/
theorem isFinite_mul {x y : Float} (hx : x.isFinite = true) (hy : y.isFinite = true)
    (hxy : (x * y).isInf = false) : (x * y).isFinite = true := by
  have hnan : (x * y).toModel.unpack.isNaN = false := isNaN_unpack_pack (isNaN_mul hx hy)
  have hinf : (x * y).toModel.unpack.isInf = false := hxy
  show (x * y).toModel.unpack.isFinite = true
  cases h : (x * y).toModel.unpack with
  | zero | finite => rfl
  | infinity s => rw [h] at hinf; cases hinf
  | notANumber => rw [h] at hnan; cases hnan

/-- The number is finite, and its last binary place is at least that of `1`. -/
def isCoarse (x : Float) : Bool :=
  match x.toModel.unpack with
  | .finite _ _ e _ => -52 ≤ e
  | _ => false

theorem unpack_of_isCoarse {x : Float} (hx : isCoarse x = true) :
    ∃ s m e hm, x.toModel.unpack = .finite s m e hm ∧ -52 ≤ e := by
  unfold isCoarse at hx
  cases h : x.toModel.unpack with
  | finite s m e hm =>
    rw [h] at hx
    exact ⟨s, m, e, hm, rfl, of_decide_eq_true hx⟩
  | zero | infinity | notANumber => rw [h] at hx; cases hx

theorem isFinite_of_isCoarse {x : Float} (hx : isCoarse x = true) : x.isFinite = true := by
  obtain ⟨s, m, e, hm, h, _⟩ := unpack_of_isCoarse hx
  show x.toModel.unpack.isFinite = true
  rw [h]
  rfl

/-- A quotient by such a number is not much greater. -/
theorem small_div {x y : Float} {b : Int} (hx : Small b x) (hy : isCoarse y = true)
    (hb : -1074 ≤ b) (hb' : b ≤ 918) : Small (b + 53) (x / y) := by
  obtain ⟨s, m, e, hm, h, he⟩ := unpack_of_isCoarse hy
  refine Bounded.unpack_pack (u := UnpackedFloat.div Format.binary64 _ _) ?_ (by omega) (by omega)
  rw [h]
  cases hu : x.toModel.unpack with
  | infinity | notANumber => rw [Small, hu] at hx; cases hx
  | zero => trivial
  | finite s' n f hn =>
    have hf : f ≤ b := by rwa [Small, hu] at hx
    have hlt : n < 2 ^ 53 := mantissa_lt hu
    obtain ⟨g, hg⟩ : ∃ g, g = min (f - e)
        (Format.binary64.targetExponent (totalExponent n f - totalExponent m e)) := ⟨_, rfl⟩
    have hdiv : UnpackedFloat.div Format.binary64 (.finite s' n f hn) (.finite s m e hm) =
        roundWithAccuracy Format.binary64 (s' / s) ((n <<< (f - e - g).toNat) / m) g
          (UnpackedFloat.accuracyOfFraction ((n <<< (f - e - g).toNat) % m) m) := by
      subst hg
      rfl
    have hquot : (n <<< (f - e - g).toNat) / m < 2 ^ (53 + (f - e - g).toNat) := by
      refine Nat.lt_of_le_of_lt (Nat.div_le_self _ _) ?_
      rw [Nat.shiftLeft_eq, Nat.pow_add]
      exact Nat.mul_lt_mul_of_pos_right hlt (Nat.two_pow_pos _)
    have hlog := log2_lt_of_lt (by omega) hquot
    rw [hdiv]
    refine bounded_roundWithAccuracy _ _ ?_ ?_ ?_ <;> omega

theorem log2_mul_le (m n : Nat) : (m * n).log2 < m.log2 + n.log2 + 2 := by
  refine log2_lt_of_lt (Nat.succ_pos _) ?_
  rw [show m.log2 + n.log2 + 2 = (m.log2 + 1) + (n.log2 + 1) by omega, Nat.pow_add]
  exact Nat.mul_lt_mul'' Nat.lt_log2_self Nat.lt_log2_self

theorem bounded_mul {s t : Sign} {m n : Nat} {e f b : Int} {hm : 0 < m} {hn : 0 < n}
    (h : m.log2 + n.log2 + e + f < 51 + b) (hef : e + f < b) (hb : -1074 < b) :
    Bounded b (UnpackedFloat.mul Format.binary64 (.finite s m e hm) (.finite t n f hn)) := by
  have hlog := log2_mul_le m n
  exact bounded_roundWithAccuracy _ _ (by omega) hef hb

/-! ## Whole numbers and powers of ten -/

theorem bounded_ofNat {n : Nat} (hn : n < 2 ^ 64) :
    Bounded 12 (UnpackedFloat.ofNat Format.binary64 n) := by
  unfold UnpackedFloat.ofNat UnpackedFloat.ofInt UnpackedFloat.normalize
  split
  · next h =>
    rw [Int.compare_eq_lt] at h
    omega
  · trivial
  · unfold UnpackedFloat.round UnpackedFloat.decreaseExponent
    simp only [Int.toNat_natCast]
    generalize (0 - Format.binary64.targetExponent (totalExponent n 0)).toNat = k
    have hlt : n <<< k < 2 ^ (64 + k) := by
      rw [Nat.shiftLeft_eq, Nat.pow_add]
      exact Nat.mul_lt_mul_of_pos_right hn (Nat.two_pow_pos k)
    have hlog := log2_lt_of_lt (by omega) hlt
    exact bounded_roundWithAccuracy _ _ (by omega) (by omega) (by decide)

/-- Past the numbers that have a table, `m * 10 ^ e` is one product. -/
theorem ofScientific_eq {m e : Nat} (hm : m ≠ 0) (he : e ≤ 308) (slow : ¬ (m < 2 ^ 53 ∧ e ≤ 22)) :
    Float.ofScientific m false e = .ofModel (.pack (UnpackedFloat.mul Format.binary64
      (.finite .positive (m <<< 53) (-53) (Nat.shiftLeft_pos_iff.mpr (Nat.pos_of_ne_zero hm)))
      (.finite .positive (10 ^ e) 0 (Nat.pow_pos (by decide))))) := by
  unfold Float.ofScientific
  rw [dif_neg slow]
  show Float.ofModel (.pack (UnpackedFloat.ofScientific Format.binary64 m (e : Int))) = _
  unfold UnpackedFloat.ofScientific
  have h1 : ¬ (e : Int) > 2 ^ 11 := by omega
  have h2 : ¬ (e : Int) < -((2 ^ 11 : Int) + m.log2) := by omega
  rw [dif_neg hm, if_neg h1, if_neg h2, if_pos (Int.natCast_nonneg e)]
  rfl

theorem small_ofNat {n : Nat} (hn : n < 2 ^ 64) : Small 14 (Float.ofNat n) := by
  show Small 14 (Float.ofScientific n false 0)
  by_cases fast : n < 2 ^ 53
  · have he : Float.ofScientific n false 0 =
        n.toUInt64.toFloat * Float.ofBits 0x3FF0000000000000 := by
      unfold Float.ofScientific
      rw [dif_pos ⟨fast, by decide⟩]
      rfl
    have one : (Float.ofBits 0x3FF0000000000000).toModel.unpack =
        .finite .positive (2 ^ 52) (-52) (Nat.two_pow_pos 52) := rfl
    have hu : Bounded 12 n.toUInt64.toFloat.toModel.unpack :=
      (bounded_ofNat n.toUInt64.toNat_lt).unpack_pack (by decide) (by decide)
    rw [he]
    refine small_pack (u := UnpackedFloat.mul Format.binary64 _ _) ?_ (by decide) (by decide)
    rw [one]
    cases h : n.toUInt64.toFloat.toModel.unpack with
    | infinity | notANumber => rw [h] at hu; cases hu
    | zero => trivial
    | finite s m e hm =>
      have he : e ≤ 12 := by rwa [h] at hu
      have hlog := log2_lt_of_lt (by decide) (mantissa_lt h)
      have htwo : (2 ^ 52).log2 = 52 := by decide
      exact bounded_mul (by omega) (by omega) (by decide)
  · have hlt : n <<< 53 < 2 ^ 117 := by
      rw [Nat.shiftLeft_eq]
      omega
    have hlog := log2_lt_of_lt (by decide) hlt
    -- matching would compute the shift bit by bit
    obtain ⟨m, hm⟩ : ∃ m, m = n <<< 53 := ⟨_, rfl⟩
    have he : ∃ hm' h1, Float.ofScientific n false 0 = .ofModel (.pack (UnpackedFloat.mul
        Format.binary64 (.finite .positive m (-53) hm') (.finite .positive (10 ^ 0) 0 h1))) := by
      rw [hm]
      exact ⟨_, _, ofScientific_eq (by omega) (by decide) fun h => fast h.1⟩
    rw [← hm] at hlog
    obtain ⟨_, _, he⟩ := he
    have hone : (10 ^ 0).log2 = 0 := by decide
    rw [he]
    exact small_pack (bounded_mul (by omega) (by decide) (by decide)) (by decide) (by decide)

theorem isCoarse_of_unpack {x : Float} {s : Sign} {m : Nat} {e : Int} {hm : 0 < m}
    (h : x.toModel.unpack = .finite s m e hm) (he : -52 ≤ e) : isCoarse x = true := by
  unfold isCoarse
  rw [h]
  exact decide_eq_true he

theorem isCoarse_pack {s : Sign} {m : Nat} {e : Int} {hm : 0 < m}
    (hlog : m.log2 = 52) (he : -52 ≤ e) (he' : e ≤ 971) :
    isCoarse (.ofModel (.pack (.finite s m e hm))) = true := by
  obtain ⟨x, y, h, hx⟩ := pack_finite s m e hm
  rcases hx with ⟨hx, -⟩ | ⟨hx, -, rfl⟩ | ⟨-, hlog', -⟩
  · omega
  · obtain ⟨hfit, hne⟩ := toNat_ofNat_of_lt hx
    have hexponent : unpackExponent (packComponents Format.binary64 s
        (BitVec.ofNat 11 (e + 1075).toNat) y) = BitVec.ofNat 11 (e + 1075).toNat :=
      unpackExponent_packComponents
    have hne0 : BitVec.ofNat 11 (e + 1075).toNat ≠ 0#11 := by
      intro h
      have h : (e + 1075).toNat = 0 := hfit.symm.trans (congrArg BitVec.toNat h)
      omega
    obtain ⟨t, n, f, hn, hu, -, hf⟩ := unpack_finite (fun h => hne (hexponent.symm.trans h))
      fun h => hne0 (hexponent.symm.trans h.1)
    rw [hexponent, hfit] at hf
    exact isCoarse_of_unpack ((congrArg (UnpackedFloat.unpack Format.binary64) h).trans hu)
      (by omega)
  · exact absurd hlog hlog'

/-- The powers of ten up to the greatest are finite, and none is less than `1`. -/
theorem isCoarse_ofScientific {e : Nat} (he : e ≤ 308) :
    isCoarse (Float.ofScientific 1 false e) = true := by
  have table : ∀ e < 23, isCoarse (Float.ofScientific 1 false e) = true := by decide +kernel
  have greatest : isCoarse (Float.ofScientific 1 false 308) = true := by decide +kernel
  by_cases fast : e < 23
  · exact table e fast
  by_cases htop : e = 308
  · exact htop ▸ greatest
  have hpow : 10 ^ e < 2 ^ 1020 :=
    Nat.lt_of_le_of_lt (Nat.pow_le_pow_right (by decide) (by omega : e ≤ 307)) (by decide +kernel)
  have hlog := log2_lt_of_lt (by decide) hpow
  have hone : (1 <<< 53).log2 = 53 := by decide
  rw [ofScientific_eq (by decide) he (by omega)]
  have hge : 2 ^ 53 ≤ 1 <<< 53 * 10 ^ e := Nat.le_mul_of_pos_right _ (Nat.pow_pos (by decide))
  have hlt := log2_mul_le (1 <<< 53) (10 ^ e)
  show isCoarse (.ofModel (.pack (roundWithAccuracy Format.binary64
    (Sign.positive * Sign.positive) (1 <<< 53 * 10 ^ e) (-53 + 0) .exact))) = true
  generalize 1 <<< 53 * 10 ^ e = m at hge hlt
  have h53 : 53 ≤ m.log2 := (Nat.le_log2 (by omega)).mpr hge
  obtain ⟨n, f, hn, hr, hnlog, hf⟩ := normal_roundWithAccuracy (e := -53 + 0)
    (Sign.positive * Sign.positive) .exact (by omega : 52 ≤ m.log2) (by decide)
  have hb : Bounded 971 (roundWithAccuracy Format.binary64 (Sign.positive * Sign.positive) m
    (-53 + 0) .exact) := bounded_roundWithAccuracy _ _ (by omega) (by decide) (by decide)
  rw [hr] at hb ⊢
  exact isCoarse_pack hnlog (by omega) hb

end GuardedData.Binary64
