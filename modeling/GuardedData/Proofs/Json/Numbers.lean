import GuardedData.Json.Printer
import GuardedData.Proofs.Decimal.Binary64

/-!
# Reading numbers

A number that is read is finite (`isFinite_of_read`), and it is read the same
way whatever follows it in a document (`read_append`): a comma or a closing
bracket, of which no number has any.
-/

namespace GuardedData.Number

open Binary64

/-! ## Finite numbers -/

/-- The number is finite, as a binary64 number. -/
def IsFinite (n : Number) : Prop := n.toFloat.isFinite = true

theorem appendDigits_le {m : Nat} (hm : m ≤ limit) (ds : List Char) :
    (appendDigits m ds).1 ≤ limit := by
  induction ds generalizing m with
  | nil => exact hm
  | cons d ds ih =>
    simp only [appendDigits]
    split
    · exact hm
    · next h => exact ih (Nat.le_of_not_lt h)

theorem small_of_le_limit {m : Nat} (hm : m ≤ limit) : Small 14 (Float.ofNat m) :=
  small_ofNat (Nat.lt_of_le_of_lt hm (by decide))

theorem isCoarse_powerOfTen {e : Nat} (he : e ≤ 308) : isCoarse (powerOfTen e) = true :=
  isCoarse_ofScientific he

theorem isFinite_scaleDown {x : Float} (hx : Small 14 x) (e : Nat) :
    (scaleDown x e).isFinite = true := by
  unfold scaleDown
  split
  · next he => exact (small_div hx (isCoarse_powerOfTen he) (by decide) (by decide)).isFinite
  · split
    · next he =>
      have once := small_div hx (isCoarse_powerOfTen (Nat.le_refl 308)) (by decide) (by decide)
      exact (small_div once (isCoarse_powerOfTen (by omega)) (by decide) (by decide)).isFinite
    · exact (small_ofNat (n := 0) (by decide)).isFinite

theorem isFinite_scaleUp {x y : Float} {e : Nat} (hx : Small 14 x) (h : scaleUp x e = some y) :
    y.isFinite = true := by
  unfold scaleUp at h
  split at h
  · next he =>
    simp only [Option.ite_none_left_eq_some, Bool.not_eq_true] at h
    obtain ⟨hinf, h⟩ := h
    obtain rfl := Option.some.inj h
    exact isFinite_mul hx.isFinite (isFinite_of_isCoarse (isCoarse_powerOfTen he)) hinf
  · split at h
    · obtain rfl := Option.some.inj h
      exact hx.isFinite
    · cases h

theorem ofParts_eq (negative : Bool) (m : Nat) (e : Int) : ofParts negative m e =
    (if 0 ≤ e then scaleUp (Float.ofNat m) e.toNat
      else some (scaleDown (Float.ofNat m) e.natAbs)).map
        fun y => .float (if negative then -y else y) := by
  by_cases he : 0 ≤ e
  · simp only [ofParts, if_pos he]
    cases scaleUp (Float.ofNat m) e.toNat <;> rfl
  · simp only [ofParts, if_neg he]
    rfl

theorem isFinite_of_ofParts {negative : Bool} {m : Nat} {e : Int} {n : Number} (hm : m ≤ limit)
    (h : ofParts negative m e = some n) : n.IsFinite := by
  have hx := small_of_le_limit hm
  rw [ofParts_eq, Option.map_eq_some_iff] at h
  obtain ⟨y, hy, rfl⟩ := h
  have hfin : y.isFinite = true := by
    split at hy
    · exact isFinite_scaleUp hx hy
    · obtain rfl := Option.some.inj hy
      exact isFinite_scaleDown hx _
  cases negative with
  | false => exact hfin
  | true => exact isFinite_neg hfin

theorem isFinite_ofInteger (negative : Bool) {m : Nat} (hm : m ≤ limit) :
    (ofInteger negative m).IsFinite := by
  have hx := (small_of_le_limit hm).isFinite
  unfold ofInteger IsFinite
  split
  · simp only [toFloat, Int.natAbs_natCast]
    rwa [if_neg (by omega)]
  · split
    · exact isFinite_neg hx
    · simp only [toFloat, Int.natAbs_neg, Int.natAbs_natCast]
      split
      · exact isFinite_neg hx
      · exact hx

/-- The sign of an exponent, and what follows it. -/
def exponentSign : List Char → Bool × List Char
  | '+' :: rest => (false, rest)
  | '-' :: rest => (true, rest)
  | rest => (false, rest)

/-- The number with an exponent of so many digits. -/
def withExponent (negative : Bool) (m : Nat) (start : Int) (down : Bool) (ds : List Char) :
    Option Number :=
  let e := numberOfDigits ds
  if Nat.pow 2 31 ≤ e then if m ≠ 0 ∧ !down then none else ofParts negative 0 0
  else ofParts negative m (if down then start - e else start + e)

theorem readExponent_eq (negative : Bool) (m : Nat) (e : Int) (cs : List Char) :
    readExponent negative m e cs =
      if ((exponentSign cs).2.takeWhile Char.isDigit).isEmpty then none
      else (withExponent negative m e (exponentSign cs).1
        ((exponentSign cs).2.takeWhile Char.isDigit)).map
          fun n => (n, (exponentSign cs).2.dropWhile Char.isDigit) := by
  have bind_eq : ∀ (o : Option Number) (r : List Char),
      (o.bind fun n => some (n, r)) = o.map fun n => (n, r) := by
    intro o r
    cases o <;> rfl
  unfold withExponent
  generalize hp : exponentSign cs = p
  have h : readExponent negative m e cs =
      if (p.2.takeWhile Char.isDigit).isEmpty then none
      else if Nat.pow 2 31 ≤ numberOfDigits (p.2.takeWhile Char.isDigit) then
        if m ≠ 0 ∧ !p.1 then none
        else (ofParts negative 0 0).bind fun n => some (n, p.2.dropWhile Char.isDigit)
      else (ofParts negative m (if p.1 then e - numberOfDigits (p.2.takeWhile Char.isDigit)
        else e + numberOfDigits (p.2.takeWhile Char.isDigit))).bind
          fun n => some (n, p.2.dropWhile Char.isDigit) := by
    subst hp
    rfl
  rw [h]
  simp only [bind_eq]
  split
  · rfl
  · split
    · split <;> rfl
    · rfl

theorem isFinite_of_withExponent {negative down : Bool} {m : Nat} {e : Int} {ds : List Char}
    {n : Number} (hm : m ≤ limit) (h : withExponent negative m e down ds = some n) :
    n.IsFinite := by
  unfold withExponent at h
  simp only at h
  split at h
  · split at h
    · cases h
    · exact isFinite_of_ofParts (Nat.zero_le _) h
  · exact isFinite_of_ofParts hm h

theorem isFinite_of_readExponent {negative : Bool} {m : Nat} {e : Int} {cs rest : List Char}
    {n : Number} (hm : m ≤ limit) (h : readExponent negative m e cs = some (n, rest)) :
    n.IsFinite := by
  rw [readExponent_eq] at h
  simp only [Option.ite_none_left_eq_some, Option.map_eq_some_iff] at h
  obtain ⟨_, k, hk, e⟩ := h
  obtain ⟨rfl, _⟩ := Prod.mk.inj e
  exact isFinite_of_withExponent hm hk

theorem isFinite_of_readTail {negative : Bool} {m k : Nat} {cs rest : List Char} {n : Number}
    (hm : m ≤ limit) (h : readTail negative m k cs = some (n, rest)) : n.IsFinite := by
  have parts : ∀ {m e r}, m ≤ limit →
      (ofParts negative m e).map (fun x => (x, r)) = some (n, rest) → n.IsFinite := by
    intro m e r hm h
    obtain ⟨x, hx, e⟩ := Option.map_eq_some_iff.mp h
    obtain ⟨rfl, _⟩ := Prod.mk.inj e
    exact isFinite_of_ofParts hm hx
  have integer : ∀ {r}, some (ofInteger negative m, r) = some (n, rest) → n.IsFinite := by
    intro r h
    obtain ⟨rfl, _⟩ := Prod.mk.inj (Option.some.inj h)
    exact isFinite_ofInteger negative hm
  unfold readTail at h
  split at h
  · simp only at h
    split at h
    · cases h
    · have hm' := appendDigits_le hm
      split at h
      · split at h
        · exact isFinite_of_readExponent (hm' _) h
        · exact parts (hm' _) h
      · exact parts (hm' _) h
  · split at h
    · exact isFinite_of_readExponent hm h
    · split at h
      · exact integer h
      · exact parts hm h
  · split at h
    · exact integer h
    · exact parts hm h

theorem isFinite_of_readUnsigned {negative : Bool} {cs rest : List Char} {n : Number}
    (h : readUnsigned negative cs = some (n, rest)) : n.IsFinite := by
  unfold readUnsigned at h
  simp only at h
  split at h
  · cases h
  · split at h
    · cases h
    · exact isFinite_of_readTail (appendDigits_le (Nat.zero_le _) _) h

/-- No number of a text is infinite. -/
theorem isFinite_of_read {cs rest : List Char} {n : Number} (h : read cs = some (n, rest)) :
    n.IsFinite := by
  unfold read at h
  split at h <;> exact isFinite_of_readUnsigned h

theorem readTail_of_ne_dot {c : Char} (hdot : c ≠ '.') (negative : Bool) (m k : Nat)
    (cs : List Char) :
    readTail negative m k (c :: cs) =
      if c = 'e' || c = 'E' then readExponent negative m k cs
      else if k = 0 then some (ofInteger negative m, c :: cs)
      else (ofParts negative m k).map fun n => (n, c :: cs) := by
  rw [readTail.eq_def]
  split
  · next h => exact absurd (List.cons.inj h).1 hdot
  · next h =>
    obtain ⟨rfl, rfl⟩ := List.cons.inj h
    rfl
  · next h => cases h

theorem read_of_ne_minus {c : Char} (hc : c ≠ '-') (cs : List Char) :
    read (c :: cs) = readUnsigned false (c :: cs) := by
  unfold read
  split
  · next h => exact absurd (List.cons.inj h).1 hc
  · rfl

/-! ## What follows a number -/

/-- What may follow a value inside a document: nothing, a comma, or a closing bracket. -/
def Follows : List Char → Prop
  | [] => True
  | c :: _ => c = ',' ∨ c = ']' ∨ c = '}'

section
variable {rest : List Char} (hr : Follows rest)
include hr

theorem takeWhile_append_follows (cs : List Char) :
    (cs ++ rest).takeWhile Char.isDigit = cs.takeWhile Char.isDigit := by
  induction cs with
  | nil =>
    cases rest with
    | nil => rfl
    | cons c r => rcases hr with rfl | rfl | rfl <;> rfl
  | cons c cs ih => simp only [List.cons_append, List.takeWhile_cons, ih]

theorem dropWhile_append_follows (cs : List Char) :
    (cs ++ rest).dropWhile Char.isDigit = cs.dropWhile Char.isDigit ++ rest := by
  induction cs with
  | nil =>
    cases rest with
    | nil => rfl
    | cons c r => rcases hr with rfl | rfl | rfl <;> rfl
  | cons c cs ih =>
    simp only [List.cons_append, List.dropWhile_cons, ih]
    split <;> rfl

theorem exponentSign_append (cs : List Char) :
    exponentSign (cs ++ rest) = ((exponentSign cs).1, (exponentSign cs).2 ++ rest) := by
  cases cs with
  | nil =>
    cases rest with
    | nil => rfl
    | cons c r => rcases hr with rfl | rfl | rfl <;> rfl
  | cons c cs =>
    simp only [List.cons_append, exponentSign]
    split <;> simp_all

theorem readExponent_append (negative : Bool) (m : Nat) (e : Int) (cs : List Char) :
    readExponent negative m e (cs ++ rest) =
      (readExponent negative m e cs).map fun p => (p.1, p.2 ++ rest) := by
  simp only [readExponent_eq, exponentSign_append hr, takeWhile_append_follows hr,
    dropWhile_append_follows hr]
  split
  · rfl
  · rw [Option.map_map]
    rfl

/-- Without a fraction or exponent a number ends, and the text goes on as it is. -/
theorem readTail_follows (negative : Bool) (m k : Nat) : readTail negative m k rest =
    if k = 0 then some (ofInteger negative m, rest)
    else (ofParts negative m k).map fun n => (n, rest) := by
  cases rest with
  | nil => rfl
  | cons c r => rcases hr with rfl | rfl | rfl <;> rfl

theorem readTail_append (negative : Bool) (m k : Nat) (cs : List Char) :
    readTail negative m k (cs ++ rest) =
      (readTail negative m k cs).map fun p => (p.1, p.2 ++ rest) := by
  have mapped : ∀ (o : Option Number) (r : List Char),
      o.map (fun n => (n, r ++ rest)) =
        (o.map fun n => (n, r)).map fun p => (p.1, p.2 ++ rest) := by
    intro o r
    rw [Option.map_map]
    rfl
  cases cs with
  | nil =>
    rw [List.nil_append, readTail_follows hr, readTail_follows (show Follows [] from trivial)]
    split
    · rfl
    · exact mapped _ []
  | cons c cs =>
    by_cases hdot : c = '.'
    · subst hdot
      simp only [List.cons_append, readTail, takeWhile_append_follows hr,
        dropWhile_append_follows hr]
      split
      · rfl
      · cases cs.dropWhile Char.isDigit with
        | nil =>
          cases rest with
          | nil => exact mapped _ []
          | cons c r => rcases hr with rfl | rfl | rfl <;> exact mapped _ []
        | cons e r =>
          simp only [List.cons_append]
          split
          · exact readExponent_append hr ..
          · exact mapped _ (e :: r)
    · rw [List.cons_append, readTail_of_ne_dot hdot, readTail_of_ne_dot hdot]
      split
      · exact readExponent_append hr ..
      · split
        · rfl
        · exact mapped _ (c :: cs)

theorem readUnsigned_append (negative : Bool) (cs : List Char) :
    readUnsigned negative (cs ++ rest) =
      (readUnsigned negative cs).map fun p => (p.1, p.2 ++ rest) := by
  simp only [readUnsigned, takeWhile_append_follows hr, dropWhile_append_follows hr,
    readTail_append hr]
  split
  · rfl
  · split <;> rfl

/-- A number is read the same way whatever follows it. -/
theorem read_append (cs : List Char) :
    read (cs ++ rest) = (read cs).map fun p => (p.1, p.2 ++ rest) := by
  cases cs with
  | nil =>
    cases rest with
    | nil => rfl
    | cons c r => rcases hr with rfl | rfl | rfl <;> rfl
  | cons c cs =>
    by_cases hc : c = '-'
    · subst hc
      exact readUnsigned_append hr true cs
    · rw [List.cons_append, read_of_ne_minus hc, read_of_ne_minus hc, ← List.cons_append]
      exact readUnsigned_append hr false (c :: cs)

end

end GuardedData.Number
