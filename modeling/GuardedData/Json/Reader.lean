import GuardedData.Decimal.Digits
import GuardedData.Json.Basic
import GuardedData.Text.Reader

/-!
# Reading JSON texts

A reader answers `none` on a malformed text. Containers nest at most 127 deep.
`Json.parse` reads a whole text, `Json.read` the generic document of it.
-/

namespace GuardedData

/-- What is wrong with a text that holds a document of a certain form. -/
inductive ReadError where
  /-- It is not JSON. -/
  | malformed
  /-- It is JSON of another form. -/
  | mismatched
  deriving DecidableEq, Repr

namespace Json

/-- White space between the tokens of a document. -/
def isSpace (c : Char) : Bool := c = ' ' || c = '\n' || c = '\t' || c = '\r'

def skipSpace (cs : List Char) : List Char := cs.dropWhile isSpace

/-! ## Strings -/

def hex4? (a b c d : Char) : Option Nat := do
  let a ← hexValue? a
  let b ← hexValue? b
  let c ← hexValue? c
  let d ← hexValue? d
  some (((a * 16 + b) * 16 + c) * 16 + d)

def shortEscape? : Char → Option Char
  | '"' => some '"'
  | '\\' => some '\\'
  | '/' => some '/'
  | 'b' => some '\x08'
  | 'f' => some '\x0C'
  | 'n' => some '\n'
  | 'r' => some '\r'
  | 't' => some '\t'
  | _ => none

/-- The first half of a pair that stands for one character. -/
def isLeadingHalf (n : Nat) : Bool := 0xD800 ≤ n && n < 0xDC00

/-- The second half of such a pair. -/
def isTrailingHalf (n : Nat) : Bool := 0xDC00 ≤ n && n < 0xE000

/-- The characters of a string after its opening quote. Controls have to be escaped, and
half a pair is malformed. -/
def stringBody : List Char → Option (List Char × List Char)
  | [] => none
  | '"' :: rest => some ([], rest)
  | '\\' :: 'u' :: a :: b :: c :: d :: rest =>
    match hex4? a b c d with
    | none => none
    | some n =>
      if isTrailingHalf n then none
      else if isLeadingHalf n then
        match rest with
        | '\\' :: 'u' :: e :: f :: g :: h :: rest' =>
          match hex4? e f g h with
          | none => none
          | some m =>
            if isTrailingHalf m then
              (stringBody rest').map fun (s, r) =>
                (Char.ofNat (0x10000 + (n - 0xD800) * 0x400 + (m - 0xDC00)) :: s, r)
            else none
        | _ => none
      else (stringBody rest).map fun (s, r) => (Char.ofNat n :: s, r)
  | '\\' :: e :: rest =>
    match shortEscape? e with
    | none => none
    | some c => (stringBody rest).map fun (s, r) => (c :: s, r)
  | c :: rest =>
    if c.toNat < 0x20 || c = '\\' then none
    else (stringBody rest).map fun (s, r) => (c :: s, r)

/-- A string after its opening quote. -/
def readString : Reader String := fun cs =>
  (stringBody cs).map fun (s, rest) => (String.ofList s, rest)

/-! ## Containers -/

/-- At least one element, then commas and elements up to `close`. The first argument bounds
the number of elements. -/
def elements {α : Type} (element : Reader α) (close : Char) : Nat → Reader (List α)
  | 0, _ => none
  | bound + 1, cs =>
    match element cs with
    | none => none
    | some (a, rest) =>
      match skipSpace rest with
      | ',' :: rest => (elements element close bound rest).map fun (as, rest) => (a :: as, rest)
      | c :: rest => if c = close then some ([a], rest) else none
      | [] => none

/-- Elements separated by commas up to `close`, after the opening bracket. -/
def separated {α : Type} (element : Reader α) (close : Char) : Reader (List α) := fun cs =>
  match skipSpace cs with
  | [] => none
  | c :: rest =>
    if c = close then some ([], rest) else elements element close (rest.length + 1) (c :: rest)

def memberName : Reader String := fun cs =>
  match skipSpace cs with
  | '"' :: rest => readString rest
  | _ => none

def skipColon (cs : List Char) : Option (List Char) :=
  match skipSpace cs with
  | ':' :: rest => some rest
  | _ => none

def member {α : Type} (value : Reader α) : Reader (String × α) := fun cs => do
  let (name, rest) ← memberName cs
  let rest ← skipColon rest
  let (a, rest) ← value rest
  some ((name, a), rest)

/-- A value that holds no other. -/
def scalar : Reader Json
  | 'n' :: 'u' :: 'l' :: 'l' :: rest => some (.null, rest)
  | 't' :: 'r' :: 'u' :: 'e' :: rest => some (.bool true, rest)
  | 'f' :: 'a' :: 'l' :: 's' :: 'e' :: rest => some (.bool false, rest)
  | '"' :: rest => (readString rest).map fun (s, rest) => (.string s, rest)
  | cs => (Number.read cs).map fun (n, rest) => (.number n, rest)

/-- A value in which containers nest at most `depth` deep. -/
def value : Nat → Reader Json
  | 0, cs => scalar (skipSpace cs)
  | depth + 1, cs =>
    match skipSpace cs with
    | '[' :: rest =>
      (separated (value depth) ']' rest).map fun (items, rest) => (.array items, rest)
    | '{' :: rest =>
      (separated (member (value depth)) '}' rest).map fun (members, rest) =>
        (.object members, rest)
    | cs => scalar cs

def maxDepth : Nat := 127

def parse (text : String) : Option Json :=
  match value maxDepth text.toList with
  | some (j, rest) => if (skipSpace rest).isEmpty then some j else none
  | none => none

/-- The generic document of a whole text. -/
def read (text : String) : Option Json := (parse text).map collapse

end Json

end GuardedData
