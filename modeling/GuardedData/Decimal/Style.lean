import GuardedData.Decimal.Shortest

/-!
# Number styles

How a finite binary64 number is written: its shortest decimal, positional or
with an exponent. `Style.diagnostic` is used in the text of values,
`Style.json` in JSON documents.
-/

namespace GuardedData

/-- The decisions of a way of writing numbers. -/
structure Style where
  tie : Tie
  /-- The places of the first digit for which no exponent is written. -/
  positional : Int → Bool
  /-- A whole number written without an exponent ends in `.0`. -/
  pointed : Bool

namespace Style

/-- Diagnostics never write an exponent, nor a point that is not needed. -/
def diagnostic : Style := ⟨.up, fun _ => true, false⟩

/-- JSON texts write an exponent from `10 ^ 16` upward and below `10 ^ -5`. -/
def json : Style := ⟨.even, fun place => -5 ≤ place && place < 16, true⟩

/-- The digits of a decimal, without zeros at the end, and the place of the first one. -/
def significant (d : Decimal) : List Char × Int :=
  let digits := Nat.toDigits 10 d.digits
  let place := d.exponent + digits.length - 1
  ((digits.reverse.dropWhile (· = '0')).reverse, place)

/-- Digits with the decimal point after the digit of place zero. -/
def writePositional (pointed : Bool) (digits : List Char) (place : Int) : String :=
  if place < 0 then
    String.ofList ('0' :: '.' :: (List.replicate (-place - 1).toNat '0' ++ digits))
  else
    let whole := place.toNat + 1
    let front := digits.take whole ++ List.replicate (whole - digits.length) '0'
    let back := digits.drop whole
    if back.isEmpty then
      String.ofList front ++ (if pointed then ".0" else "")
    else
      String.ofList (front ++ '.' :: back)

/-- One digit, the others after a point, and the signed place of the first. -/
def writeScientific (digits : List Char) (place : Int) : String :=
  let mantissa := match digits with
    | [] => ['0']
    | [d] => [d]
    | d :: rest => d :: '.' :: rest
  String.ofList mantissa ++ "e" ++ (if place < 0 then "-" else "+") ++ toString place.natAbs

def write (style : Style) (x : Float) : String :=
  let sign := if x.toBits.toNat / Nat.pow 2 63 = 1 then "-" else ""
  match Binary.ofFloat? x with
  | none => sign ++ (if style.pointed then "0.0" else "0")
  | some b =>
    let (digits, place) := significant (b.shortest style.tie)
    sign ++ if style.positional place then writePositional style.pointed digits place
      else writeScientific digits place

end Style

end GuardedData
