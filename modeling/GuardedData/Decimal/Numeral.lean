import GuardedData.Decimal.Digits

/-!
# Numerals

The texts of numbers: digits with an optional point, exponent and sign, or the
name of a number that is not finite. `isNumeral` recognises them.
-/

namespace GuardedData.Decimal

def dropSign : List Char → List Char
  | '+' :: rest => rest
  | '-' :: rest => rest
  | cs => cs

/-- The names of the numbers that are not finite, in lower case. -/
def specialNames : List String := ["inf", "infinity", "nan"]

/-- An exponent, or nothing. -/
def isExponent : List Char → Bool
  | [] => true
  | e :: rest =>
    let digits := dropSign rest
    e.toLower = 'e' && !digits.isEmpty && digits.all Char.isDigit

/-- Digits around an optional point, at least one in all, and an optional exponent. -/
def isUnsignedNumeral (cs : List Char) : Bool :=
  match cs.takeWhile Char.isDigit, cs.dropWhile Char.isDigit with
  | [], '.' :: c :: rest => c.isDigit && isExponent (rest.dropWhile Char.isDigit)
  | _ :: _, '.' :: rest => isExponent (rest.dropWhile Char.isDigit)
  | whole, rest => !whole.isEmpty && isExponent rest

def isNumeral (cs : List Char) : Bool :=
  let rest := dropSign cs
  specialNames.contains (String.ofList (rest.map Char.toLower)) || isUnsignedNumeral rest

end GuardedData.Decimal
