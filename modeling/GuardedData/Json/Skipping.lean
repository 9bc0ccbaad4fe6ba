import GuardedData.Json.Reader

/-!
# Skipping JSON values

A value that nobody asks for is skipped. It has to be well-formed, but
containers may nest as deep as they like, numbers may be as great as they
like, and half a pair is not looked at.
-/

namespace GuardedData.Json

/-- The text after a string, which has been opened. -/
def skipString : List Char → Option (List Char)
  | [] => none
  | '"' :: rest => some rest
  | '\\' :: 'u' :: a :: b :: c :: d :: rest =>
    if (hex4? a b c d).isSome then skipString rest else none
  | '\\' :: e :: rest => if (shortEscape? e).isSome then skipString rest else none
  | c :: rest => if c.toNat < 0x20 || c = '\\' then none else skipString rest

def skipExponent : List Char → Option (List Char)
  | c :: rest =>
    if c = 'e' || c = 'E' then
      let digits := match rest with
        | '+' :: rest => rest
        | '-' :: rest => rest
        | rest => rest
      if (digits.takeWhile Char.isDigit).isEmpty then none
      else some (digits.dropWhile Char.isDigit)
    else some (c :: rest)
  | [] => some []

def skipUnsigned (cs : List Char) : Option (List Char) :=
  match cs.takeWhile Char.isDigit, cs.dropWhile Char.isDigit with
  | [], _ => none
  | '0' :: _ :: _, _ => none
  | _, '.' :: rest =>
    if (rest.takeWhile Char.isDigit).isEmpty then none
    else skipExponent (rest.dropWhile Char.isDigit)
  | _, rest => skipExponent rest

/-- The text after a value that holds no other. -/
def skipScalar : List Char → Option (List Char)
  | 'n' :: 'u' :: 'l' :: 'l' :: rest => some rest
  | 't' :: 'r' :: 'u' :: 'e' :: rest => some rest
  | 'f' :: 'a' :: 'l' :: 's' :: 'e' :: rest => some rest
  | '"' :: rest => skipString rest
  | '-' :: rest => skipUnsigned rest
  | cs => skipUnsigned cs

def skippedName : Reader Unit := fun cs =>
  match skipSpace cs with
  | '"' :: rest => (skipString rest).map ((), ·)
  | _ => none

/-- Skips a value in which containers nest at most `depth` deep. -/
def skipTo : Nat → Reader Unit
  | 0, cs => (skipScalar (skipSpace cs)).map ((), ·)
  | depth + 1, cs =>
    match skipSpace cs with
    | '[' :: rest => (separated (skipTo depth) ']' rest).map fun (_, rest) => ((), rest)
    | '{' :: rest =>
      let element : Reader Unit := fun cs => do
        let (_, rest) ← skippedName cs
        let rest ← skipColon rest
        skipTo depth rest
      (separated element '}' rest).map fun (_, rest) => ((), rest)
    | cs => (skipScalar cs).map ((), ·)

/-- Skips a value. A text cannot nest deeper than it is long. -/
def skip : Reader Unit := fun cs => skipTo cs.length cs

end GuardedData.Json
