import GuardedData.Decimal.Digits

/-!
# Numbers of JSON documents

A number without fraction and exponent that fits into 64 bits stays an
integer, any other one is a binary64 number. Such a number is computed from
its first digits, as many as fit into 64 bits, and one power of ten: the
product or quotient is rounded once, so that a number of many digits need not
be the nearest binary64 number. A number too great for binary64 is malformed.
-/

namespace GuardedData

inductive Number where
  /-- An integer from `-2 ^ 63` up to below `2 ^ 64`. -/
  | int (n : Int)
  | float (x : Float)
  deriving DecidableEq

namespace Number

/-- The nearest binary64 number. -/
def toFloat : Number → Float
  | .int n => if n < 0 then -Float.ofNat n.natAbs else Float.ofNat n.natAbs
  | .float x => x

/-- The greatest integer of 64 bits. -/
def limit : Nat := Nat.pow 2 64 - 1

/-- Appends digits to a significand as long as it fits; the digits that are left over. -/
def appendDigits (significand : Nat) : List Char → Nat × List Char
  | [] => (significand, [])
  | d :: ds =>
    let next := significand * 10 + digitValue d
    if limit < next then (significand, d :: ds) else appendDigits next ds

/-- A power of ten that binary64 can hold, up to `10 ^ 308`. -/
def powerOfTen (e : Nat) : Float := Float.ofScientific 1 false e

/-- Multiplies by `10 ^ e`, unless that is too great. -/
def scaleUp (x : Float) (e : Nat) : Option Float :=
  if e ≤ 308 then
    let y := x * powerOfTen e
    if y.isInf then none else some y
  else if x == 0 then some x else none

/-- Divides an `x` below `2 ^ 64` by `10 ^ e`; two divisions reach zero at the latest. -/
def scaleDown (x : Float) (e : Nat) : Float :=
  if e ≤ 308 then x / powerOfTen e
  else if e ≤ 616 then x / powerOfTen 308 / powerOfTen (e - 308)
  else 0

/-- The binary64 number `significand * 10 ^ e` with a sign. -/
def ofParts (negative : Bool) (significand : Nat) (e : Int) : Option Number := do
  let x := Float.ofNat significand
  let y ← if 0 ≤ e then scaleUp x e.toNat else some (scaleDown x e.natAbs)
  some (.float (if negative then -y else y))

/-- A number without fraction and exponent. -/
def ofInteger (negative : Bool) (significand : Nat) : Number :=
  if !negative then .int significand
  else if significand = 0 || Nat.pow 2 63 < significand then .float (-Float.ofNat significand)
  else .int (-significand)

/-- The exponent part after its letter. -/
def readExponent (negative : Bool) (significand : Nat) (start : Int) (cs : List Char) :
    Option (Number × List Char) := do
  let (down, digits) := match cs with
    | '+' :: rest => (false, rest)
    | '-' :: rest => (true, rest)
    | rest => (false, rest)
  let ds := digits.takeWhile Char.isDigit
  let rest := digits.dropWhile Char.isDigit
  if ds.isEmpty then none
  else
    let e := numberOfDigits ds
    let number ←
      if Nat.pow 2 31 ≤ e then
        if significand ≠ 0 ∧ !down then none else ofParts negative 0 0
      else ofParts negative significand (if down then start - e else start + e)
    some (number, rest)

/-- The fraction and the exponent, if there are any. -/
def readTail (negative : Bool) (significand : Nat) (leftOver : Nat) (cs : List Char) :
    Option (Number × List Char) :=
  match cs with
  | '.' :: rest =>
    let ds := rest.takeWhile Char.isDigit
    let rest := rest.dropWhile Char.isDigit
    if ds.isEmpty then none
    else
      let (significand, unused) := appendDigits significand ds
      let e : Int := leftOver - (ds.length - unused.length : Nat)
      match rest with
      | c :: rest' =>
        if c = 'e' || c = 'E' then readExponent negative significand e rest'
        else (ofParts negative significand e).map (·, rest)
      | [] => (ofParts negative significand e).map (·, [])
  | c :: rest =>
    if c = 'e' || c = 'E' then readExponent negative significand leftOver rest
    else if leftOver = 0 then some (ofInteger negative significand, cs)
    else (ofParts negative significand leftOver).map (·, cs)
  | [] =>
    if leftOver = 0 then some (ofInteger negative significand, [])
    else (ofParts negative significand leftOver).map (·, [])

/-- A number at the start of the text, after its sign. A zero in front stands alone. -/
def readUnsigned (negative : Bool) (cs : List Char) : Option (Number × List Char) :=
  let ds := cs.takeWhile Char.isDigit
  let rest := cs.dropWhile Char.isDigit
  match ds with
  | [] => none
  | d :: more =>
    if d = '0' && !more.isEmpty then none
    else
      let (significand, unused) := appendDigits 0 ds
      readTail negative significand unused.length rest

def read : List Char → Option (Number × List Char)
  | '-' :: rest => readUnsigned true rest
  | cs => readUnsigned false cs

end Number

end GuardedData
