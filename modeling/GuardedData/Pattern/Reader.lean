import GuardedData.Decimal.Digits
import GuardedData.Pattern.Basic
import GuardedData.Text.Alphanumeric
import GuardedData.Text.Blank
import GuardedData.Text.Reader

/-!
# Reading patterns

`Pattern.read?` takes a text apart into a pattern. The text stands between
braces, so it holds no closing brace: a number of repetitions, a code point or
a property in braces never ends, and an opening brace that stands for itself is
escaped or in brackets. `Pattern.isValid` says whether a text is a pattern that
can be matched.
-/

namespace GuardedData.Pattern

/-! ## Layout -/

/-- The text from its first character on that is neither white space nor in a comment. The
first argument says whether a comment has begun; it ends with the line. -/
def skipLayout : Bool → List Char → List Char
  | _, [] => []
  | true, c :: rest => skipLayout (c ≠ '\n') rest
  | false, c :: rest =>
    if Text.isBlank c then skipLayout false rest
    else if c = '#' then skipLayout true rest
    else c :: rest

/-- The text from its next part on. -/
def skip (verbose : Bool) (cs : List Char) : List Char :=
  if verbose then skipLayout false cs else cs

/-- The character that decides whether a dash in brackets makes a range. White space and the
sign that opens a comment are passed over, the comment is not. -/
def afterDash? (verbose : Bool) (cs : List Char) : Option Char :=
  if verbose then
    match cs.dropWhile Text.isBlank with
    | '#' :: rest => (rest.dropWhile Text.isBlank).head?
    | rest => rest.head?
  else cs.head?

/-! ## Escapes -/

inductive Escape where
  | literal (l : PatternChar)
  | anchor
  | wordEdge
  | shorthand (negated : Bool)
  deriving Repr

/-- The number of hexadecimal digits after the letter of an escape. -/
def hexLength? : Char → Option Nat
  | 'x' => some 2
  | 'u' => some 4
  | 'U' => some 8
  | _ => none

/-- So many hexadecimal digits after those that make `n`. -/
def readHex (verbose : Bool) : Nat → Nat → Reader Nat
  | 0, n, cs => some (n, cs)
  | count + 1, n, cs =>
    match skip verbose cs with
    | [] => none
    | c :: rest => (hexValue? c).bind fun d => readHex verbose count (n * 16 + d) rest

def control? : Char → Option Char
  | 'a' => some '\x07'
  | 't' => some '\t'
  | 'n' => some '\n'
  | 'v' => some '\x0B'
  | 'f' => some '\x0C'
  | 'r' => some '\r'
  | _ => none

/-- The character may be escaped to stand for itself. -/
def isPunctuation (c : Char) : Bool :=
  c.toNat < 0x80 && !c.isAlphanum && c ≠ '<' && c ≠ '>'

def readEscape (verbose : Bool) : Reader Escape
  | [] => none
  | c :: rest =>
    match hexLength? c with
    | some count => do
      let (n, rest) ← readHex verbose count 0 rest
      if n.isValidChar then some (.literal ⟨Char.ofNat n, c = 'x'⟩, rest) else none
    | none =>
      if ['d', 's', 'w'].contains c then some (.shorthand false, rest)
      else if ['D', 'S', 'W'].contains c then some (.shorthand true, rest)
      else if ['A', 'z'].contains c then some (.anchor, rest)
      else if ['b', 'B', '<', '>'].contains c then some (.wordEdge, rest)
      else if isPunctuation c then some (.literal ⟨c, false⟩, rest)
      else (control? c).map fun c => (.literal ⟨c, false⟩, rest)

/-! ## Brackets -/

def classNames : List String :=
  ["alnum", "alpha", "ascii", "blank", "cntrl", "digit", "graph", "lower", "print", "punct",
    "space", "upper", "word", "xdigit"]

/-- The name of a class and the colon and bracket that close it. -/
def readClassName (negated : Bool) : Reader CharSet := fun cs =>
  match cs.dropWhile (· ≠ ':') with
  | ':' :: ']' :: rest =>
    if classNames.contains (String.ofList (cs.takeWhile (· ≠ ':'))) then
      some (.named negated, rest)
    else none
  | _ => none

/-- A class with a name, after the opening bracket. -/
def readClass : Reader CharSet
  | ':' :: '^' :: rest => readClassName true rest
  | ':' :: rest => readClassName false rest
  | _ => none

/-- A character in brackets, or an escape. -/
def readMember (verbose : Bool) : Reader Escape
  | [] => none
  | '\\' :: rest => readEscape verbose rest
  | c :: rest => some (.literal ⟨c, false⟩, rest)

/-- The set of a single member. -/
def setOf? : Escape → Option CharSet
  | .literal l => some (.literal l)
  | .shorthand negated => some (.shorthand negated)
  | .anchor | .wordEdge => none

def rangeOf? : Escape → Escape → Option CharSet
  | .literal low, .literal high => if low.char ≤ high.char then some (.range low high) else none
  | _, _ => none

/-- A member, or a range of characters. A dash before a closing bracket or another dash makes
no range. -/
def readRange (verbose : Bool) : Reader CharSet := fun cs => do
  let (low, rest) ← readMember verbose cs
  match skip verbose rest with
  | [] => none
  | '-' :: after =>
    if [some ']', some '-'].contains (afterDash? verbose after) then
      (setOf? low).map (·, '-' :: after)
    else do
      let (high, rest) ← readMember verbose (skip verbose after)
      (rangeOf? low high).map (·, rest)
  | rest => (setOf? low).map (·, rest)

/-- What has been read of a set in brackets. -/
structure OpenSet where
  /-- Nothing but dashes. -/
  opening : Bool
  /-- The set before the last operator. -/
  left : Option CharSet
  /-- The items after it, the last one first. -/
  items : List CharSet

namespace OpenSet

def initial : OpenSet := ⟨true, none, []⟩

def push (o : OpenSet) (s : CharSet) : OpenSet := { o with opening := false, items := s :: o.items }

def close (o : OpenSet) : CharSet :=
  let right := .ofItems o.items.reverse
  match o.left with
  | none => right
  | some left => .combination left right

/-- With an operator after it. -/
def operator (o : OpenSet) : OpenSet := ⟨false, some o.close, []⟩

end OpenSet

/-- The sign of a set after its opening bracket. -/
def readNegation (verbose : Bool) (cs : List Char) : Bool × List Char :=
  match skip verbose cs with
  | '^' :: rest => (true, rest)
  | rest => (false, rest)

def afterOperator? : List Char → Option (List Char)
  | '&' :: '&' :: rest => some rest
  | '-' :: '-' :: rest => some rest
  | '~' :: '~' :: rest => some rest
  | _ => none

/-- The rest of a set after what has been read of it, up to the closing bracket. Dashes at the
start stand for themselves, and so does a closing bracket that comes first. The second
argument bounds the number of items. -/
def readSet (verbose : Bool) : Nat → OpenSet → Reader CharSet
  | 0, _, _ => none
  | bound + 1, o, cs =>
    match skip verbose cs with
    | [] => none
    | c :: rest =>
      if o.opening && c = '-' then
        readSet verbose bound { o with items := .literal ⟨'-', false⟩ :: o.items } rest
      else if o.opening && o.items.isEmpty && c = ']' then
        readSet verbose bound (o.push (.literal ⟨']', false⟩)) rest
      else if c = ']' then some (o.close, rest)
      else if c = '[' then
        match readClass rest with
        | some (s, rest) => readSet verbose bound (o.push s) rest
        | none =>
          let (negated, rest) := readNegation verbose rest
          match readSet verbose bound .initial rest with
          | some (s, rest) => readSet verbose bound (o.push (.bracket negated s)) rest
          | none => none
      else
        match afterOperator? (c :: rest) with
        | some rest => readSet verbose bound o.operator rest
        | none =>
          match readRange verbose (c :: rest) with
          | some (s, rest) => readSet verbose bound (o.push s) rest
          | none => none

def readBrackets (verbose : Bool) : Reader CharSet := fun cs =>
  let (negated, rest) := readNegation verbose cs
  (readSet verbose (rest.length + 1) .initial rest).map fun (s, rest) => (.bracket negated s, rest)

/-! ## Groups -/

/-- What an opening parenthesis begins. -/
inductive Opening where
  /-- Flags for the rest of the group that holds them. -/
  | flags (change : FlagChange)
  | group (change : FlagChange) (name : Option String)

def flagLetters : List Char := ['i', 'm', 's', 'U', 'u', 'R', 'x']

/-- Whether a flag is set by the letters before the dash, or unset by those after it. -/
def flag? (letters : List Char) (flag : Char) : Option Bool :=
  if (letters.takeWhile (· ≠ '-')).contains flag then some true
  else if letters.contains flag then some false
  else none

/-- The letters of flags: none is repeated, and the only dash has some after it. -/
def areFlags (letters : List Char) : Bool :=
  letters.all (fun c => c = '-' || flagLetters.contains c) && decide letters.Nodup &&
    letters.getLast? ≠ some '-'

/-- Flags up to a colon, which opens a group, or up to a closing parenthesis, before which
there is at least one. -/
def readFlags : Reader Opening := fun cs =>
  let letters := cs.takeWhile (fun c => c ≠ ':' && c ≠ ')')
  let change := ⟨flag? letters 'i', flag? letters 'u', flag? letters 'x'⟩
  if areFlags letters then
    match cs.dropWhile (fun c => c ≠ ':' && c ≠ ')') with
    | ':' :: rest => some (.group change none, rest)
    | ')' :: rest => if letters.isEmpty then none else some (.flags change, rest)
    | _ => none
  else none

def isGroupName : List Char → Bool
  | [] => false
  | c :: rest =>
    (c = '_' || Text.isAlphabetic c) &&
      rest.all fun c => ['_', '.', '[', ']'].contains c || Text.isAlphanumeric c

/-- The name of a group and the angle bracket that closes it. -/
def readGroupName : Reader Opening := fun cs =>
  let name := cs.takeWhile (· ≠ '>')
  match cs.dropWhile (· ≠ '>') with
  | '>' :: rest => if isGroupName name then some (.group .keep (String.ofList name), rest) else none
  | _ => none

/-- The start of a group after its opening parenthesis. A group cannot look around. -/
def readOpening : Reader Opening
  | '?' :: '<' :: '=' :: _ => none
  | '?' :: '<' :: '!' :: _ => none
  | '?' :: '<' :: rest => readGroupName rest
  | '?' :: 'P' :: '<' :: rest => readGroupName rest
  | '?' :: rest => readFlags rest
  | rest => some (.group .keep none, rest)

/-! ## Patterns -/

/-- What has been read of a group: the alternatives before the last, and the parts of that,
each with the last one first. -/
structure Body where
  branches : List Pattern
  items : List Pattern

namespace Body

def initial : Body := ⟨[], []⟩

/-- With the start of another alternative. -/
def branch (b : Body) : Body := ⟨inSequence b.items.reverse :: b.branches, []⟩

def close (b : Body) : Pattern := anyOf b.branch.branches.reverse

end Body

/-- A group that is open, and what came before it. -/
structure OpenGroup where
  change : FlagChange
  verbose : Bool
  before : Body

structure Progress where
  verbose : Bool
  names : List String
  /-- The groups around the current one, the innermost first. -/
  groups : List OpenGroup
  body : Body

namespace Progress

def initial : Progress := ⟨false, [], [], .initial⟩

def push (s : Progress) (p : Pattern) : Progress :=
  { s with body := { s.body with items := p :: s.body.items } }

/-- With what an opening parenthesis begins. No two groups have the same name. -/
def start? (s : Progress) : Opening → Option Progress
  | .flags change => some { s.push (.flags change) with verbose := change.verbose.getD s.verbose }
  | .group change name =>
    if name.any s.names.contains then none
    else some {
      verbose := change.verbose.getD s.verbose
      names := name.toList ++ s.names
      groups := ⟨change, s.verbose, s.body⟩ :: s.groups
      body := .initial }

/-- With the innermost group closed. -/
def finish? (s : Progress) : Option Progress :=
  match s.groups with
  | [] => none
  | g :: groups =>
    let outside := { s with verbose := g.verbose, groups, body := g.before }
    some (outside.push (.group g.change s.body.close))

/-- With the last part repeated. Flags are not repeated. -/
def repeat? (s : Progress) : Option Progress :=
  match s.body.items with
  | [] => none
  | .flags _ :: _ => none
  | p :: items => some { s with body := { s.body with items := .repetition p :: items } }

/-- The text after a question mark at its start, which asks for as few repetitions as
possible. -/
def afterLazy : List Char → List Char
  | '?' :: rest => rest
  | rest => rest

/-- The part of a pattern that an escape makes. -/
def ofEscape : Escape → Pattern
  | .literal l => .literal l
  | .anchor => .anchor
  | .wordEdge => .wordEdge
  | .shorthand negated => .set (.shorthand negated)

/-- One step further, by the part that starts with `c`. -/
def step? (s : Progress) (c : Char) : Reader Progress := fun rest =>
  if c = '(' then do
    let (opening, rest) ← readOpening (skip s.verbose rest)
    (s.start? opening).map (·, rest)
  else if c = ')' then s.finish?.map (·, rest)
  else if c = '|' then some ({ s with body := s.body.branch }, rest)
  else if c = '[' then
    (readBrackets s.verbose rest).map fun (chars, rest) => (s.push (.set chars), rest)
  else if ['?', '*', '+'].contains c then s.repeat?.map (·, afterLazy rest)
  else if c = '\x7b' then none
  else if c = '.' then some (s.push .dot, rest)
  else if c = '^' || c = '$' then some (s.push .anchor, rest)
  else if c = '\\' then
    (readEscape s.verbose rest).map fun (e, rest) => (s.push (ofEscape e), rest)
  else some (s.push (.literal ⟨c, false⟩), rest)

/-- The whole pattern, of which the rest is still to be read. The first argument bounds the
number of its parts. -/
def run : Nat → Progress → List Char → Option Pattern
  | 0, _, _ => none
  | bound + 1, s, cs =>
    match skip s.verbose cs with
    | [] => if s.groups.isEmpty then some s.body.close else none
    | c :: rest =>
      match s.step? c rest with
      | some (s, rest) => run bound s rest
      | none => none

end Progress

def read? (cs : List Char) : Option Pattern := Progress.run (cs.length + 1) .initial cs

/-- The text is a pattern that can be matched. -/
def isValid (cs : List Char) : Bool := (read? cs).any isSupported

end GuardedData.Pattern
