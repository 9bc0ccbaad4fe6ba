/-!
# Shortest decimals

A binary64 number is read back from any decimal that is nearer to it than to
its two neighbours. `Binary` is a positive finite number as mantissa and
exponent, `Decimal` a number in base ten, and `Binary.shortest` the decimal
with the fewest digits that reads back, the nearest one of those; the tie
between two equally near decimals is a parameter.
-/

namespace GuardedData

/-- The positive number `mantissa * 2 ^ exponent`. `narrow` says that the neighbour
below is only half as far away as the one above. -/
structure Binary where
  mantissa : Nat
  exponent : Int
  narrow : Bool
  deriving DecidableEq, Repr

/-- The number `digits * 10 ^ exponent`. -/
structure Decimal where
  digits : Nat
  exponent : Int
  deriving DecidableEq, Repr

/-- Which of two equally near decimals is taken. -/
inductive Tie
  /-- The one whose last digit is even. -/
  | even
  /-- The greater one. -/
  | up
  deriving DecidableEq, Repr

/-- How many decimal digits `n` has; zero has one. -/
def decimalLength (n : Nat) : Nat := (Nat.toDigits 10 n).length

namespace Binary

/-- The size of a finite number that is not zero. -/
def ofFloat? (x : Float) : Option Binary :=
  let bits : Nat := x.toBits.toNat
  let fraction : Nat := bits % Nat.pow 2 52
  let biased : Nat := bits / Nat.pow 2 52 % Nat.pow 2 11
  if biased = 2047 then none
  else if biased = 0 then
    if fraction = 0 then none else some ⟨fraction, -1074, false⟩
  else some ⟨fraction + Nat.pow 2 52, biased - 1075, fraction = 0 && biased != 1⟩

/-- The value and the ends of its interval over one common denominator. -/
structure Scaled where
  value : Nat
  low : Nat
  high : Nat
  unit : Nat
  /-- The ends themselves read back. -/
  closed : Bool

/-- The interval of reals that round to `b`, in units of `10 ^ grid`. -/
def scaled (b : Binary) (grid : Int) : Scaled :=
  let twos := b.exponent - 2
  let up := Nat.pow 2 twos.toNat * Nat.pow 10 (-grid).toNat
  { value := 4 * b.mantissa * up
    low := (4 * b.mantissa - if b.narrow then 1 else 2) * up
    high := (4 * b.mantissa + 2) * up
    unit := Nat.pow 2 (-twos).toNat * Nat.pow 10 grid.toNat
    closed := b.mantissa % 2 = 0 }

/-- The decimal `digits` on the grid reads back. -/
def Scaled.contains (s : Scaled) (digits : Nat) : Bool :=
  let point := digits * s.unit
  if s.closed then s.low ≤ point && point ≤ s.high else s.low < point && point < s.high

/-- The place of the first digit: `10 ^ leading ≤ b < 10 ^ (leading + 1)`. -/
def leading (b : Binary) : Int :=
  let num := b.mantissa * Nat.pow 2 b.exponent.toNat
  let den := Nat.pow 2 (-b.exponent).toNat
  let guess : Int := decimalLength num - decimalLength den
  if den * Nat.pow 10 guess.toNat ≤ num * Nat.pow 10 (-guess).toNat then guess else guess - 1

/-- The nearer one of the two neighbours of `b` on the grid, if one reads back. -/
def onGrid (tie : Tie) (b : Binary) (grid : Int) : Option Decimal :=
  let s := b.scaled grid
  let below := s.value / s.unit
  let above := below + 1
  match s.contains below, s.contains above with
  | false, false => none
  | true, false => some ⟨below, grid⟩
  | false, true => some ⟨above, grid⟩
  | true, true =>
    let twice := 2 * (s.value % s.unit)
    if twice < s.unit then some ⟨below, grid⟩
    else if s.unit < twice then some ⟨above, grid⟩
    else match tie with
      | .up => some ⟨above, grid⟩
      | .even => some ⟨if below % 2 = 0 then below else above, grid⟩

/-- The decimal of fewest digits that reads back as `b`. Seventeen digits always do. -/
def shortest (tie : Tie) (b : Binary) : Decimal :=
  let top := b.leading
  ((List.range 17).findSome? fun n : Nat => b.onGrid tie (top - (n : Int))).getD
    ⟨b.mantissa * Nat.pow 2 b.exponent.toNat, 0⟩

end Binary

end GuardedData
