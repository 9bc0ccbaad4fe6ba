import GuardedData.Decimal.Digits
import GuardedData.Decimal.Numeral
import GuardedData.Pattern.Reader
import GuardedData.Text.Alphanumeric
import GuardedData.Text.Blank

/-!
# Log filters

A filter is a list of directives between commas: a level, a target, or a
target with a level after an equals sign; a span in brackets, which may have
fields in braces, can follow the target. The value of a field is a number or a
pattern. `LogFilter.isValid` says whether a text is a filter. A report takes any
such test (`Command.report`); this is the one that the program is run with.
-/

namespace GuardedData.LogFilter

/-! ## Levels -/

def levelNames : List String := ["trace", "debug", "info", "warn", "error", "off"]

/-- The digits spell a number from zero to five. -/
def isLevelNumber (ds : List Char) : Bool :=
  !ds.isEmpty && ds.all Char.isDigit && numberOfDigits ds ≤ 5

/-- A level: a name in any case, a number from zero to five, or nothing. -/
def isLevel (cs : List Char) : Bool :=
  cs.isEmpty || levelNames.contains (String.ofList (cs.map Char.toLower)) ||
    match cs with
    | '+' :: ds => isLevelNumber ds
    | ds => isLevelNumber ds

/-! ## Fields -/

/-- A field: a name, and a value if there is an equals sign. Nothing counts after a second
one. -/
def isField (cs : List Char) : Bool :=
  match cs.dropWhile (· ≠ '=') with
  | [] => true
  | _ :: rest =>
    let value := rest.takeWhile (· ≠ '=')
    Decimal.isNumeral value || Pattern.isValid value

/-! ## Parts of a directive -/

/-- The parts of a directive in which there can be a fault. -/
structure Directive where
  /-- The field, after the text up to its opening brace. -/
  field : Option (List Char × List Char)
  level : Option (List Char)

namespace Directive

def mayStart (c : Char) : Bool :=
  c = '[' || c = '-' || c = ':' || c = '_' || Text.isAlphanumeric c

/-- What follows the span of a directive: nothing, or a level. -/
def ofEnd? (field : Option (List Char × List Char)) : List Char → Option Directive
  | [] => some ⟨field, none⟩
  | '=' :: rest => some ⟨field, some rest⟩
  | _ => none

/-- A span after the opening bracket, where `before` is the directive up to it. Braces hold at
least one character. -/
def ofSpan? (before : List Char) (cs : List Char) : Option Directive :=
  let name := cs.takeWhile (fun c => c ≠ ']' && c ≠ '\x7b')
  match cs.dropWhile (fun c => c ≠ ']' && c ≠ '\x7b') with
  | [] => none
  | ']' :: rest => ofEnd? none rest
  | brace :: rest =>
    let field := rest.takeWhile (· ≠ '\x7d')
    match rest.dropWhile (· ≠ '\x7d') with
    | _ :: ']' :: rest =>
      if field.isEmpty then none else ofEnd? (some (before ++ name ++ [brace], field)) rest
    | _ => none

/-- The parts of a directive. What starts with a target or a level has no more parts if there
is neither an equals sign nor a bracket in it: a text that is no level is a target. -/
def ofChars? (cs : List Char) : Option Directive :=
  if cs.head?.any mayStart then
    match cs.dropWhile (fun c => c ≠ '=' && c ≠ '[') with
    | [] => some ⟨none, none⟩
    | '[' :: rest => ofSpan? (cs.takeWhile (fun c => c ≠ '=' && c ≠ '[') ++ ['[']) rest
    | _ :: rest => some ⟨none, some rest⟩
  else none

end Directive

/-! ## Directives -/

/-- The characters of the first `n` bytes, and those after them; `none` inside a
character. -/
def splitBytes : Nat → List Char → Option (List Char × List Char)
  | 0, cs => some ([], cs)
  | _ + 1, [] => none
  | n + 1, c :: cs =>
    if c.utf8Size ≤ n + 1 then
      (splitBytes (n + 1 - c.utf8Size) cs).map fun (front, rest) => (c :: front, rest)
    else none

def byteCount (cs : List Char) : Nat := cs.foldl (fun n c => n + c.utf8Size) 0

/-- The characters of `whole` at the place that `part` has in a text after `before`. -/
def atPlaceOf (before part whole : List Char) : Option (List Char) := do
  let (_, rest) ← splitBytes (byteCount before) whole
  let (found, _) ← splitBytes (byteCount part) rest
  some found

/-- A directive. White space around it is allowed unless it has a level after an equals sign.
A field is taken from the place it has when there is no white space in front. -/
def isDirective (cs : List Char) : Bool :=
  let trimmed := Text.trim cs
  match Directive.ofChars? trimmed with
  | none => false
  | some d =>
    d.level.all (fun level => trimmed = cs && isLevel level) &&
      d.field.all fun (before, field) => (atPlaceOf before field cs).any isField

/-- A filter: directives between commas, among which there may be nothing. -/
def isValid (text : String) : Bool :=
  ((text.toList.splitOn ',').filter (!·.isEmpty)).all isDirective

end GuardedData.LogFilter
