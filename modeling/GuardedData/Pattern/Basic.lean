/-!
# Patterns

Regular expressions for the values of fields. `Pattern` is what a pattern is
made of and `CharSet` what stands in its brackets.

`Pattern.isSupported` says whether a matcher can be built for a pattern. The
matcher works on UTF-8 text and knows no properties of characters beyond
ASCII: with the flag `u`, which is set at first, no letter case can be ignored
and no word be found; without it only sets of ASCII characters can be matched,
since the rest of a set would be single bytes.
-/

namespace GuardedData

/-- A change of flags; `none` leaves a flag as it is. -/
structure FlagChange where
  /-- Letter case is ignored. -/
  caseless : Option Bool
  /-- Characters are matched, not bytes. -/
  unicode : Option Bool
  /-- White space and comments may stand between the parts of the pattern. -/
  verbose : Option Bool
  deriving DecidableEq, Repr

namespace FlagChange

def keep : FlagChange := ⟨none, none, none⟩

end FlagChange

/-- A character that stands for itself. -/
structure PatternChar where
  char : Char
  /-- It is written as a byte, by two hexadecimal digits. -/
  byte : Bool
  deriving DecidableEq, Repr

inductive CharSet where
  | empty
  | literal (l : PatternChar)
  | range (low high : PatternChar)
  /-- A class with a name, such as `[:alpha:]`. -/
  | named (negated : Bool)
  /-- The digits, the white space or the characters of words. -/
  | shorthand (negated : Bool)
  | bracket (negated : Bool) (s : CharSet)
  | union (s t : CharSet)
  /-- An intersection or difference. -/
  | combination (s t : CharSet)
  deriving Repr

inductive Pattern where
  | empty
  /-- Flags for the rest of the group. -/
  | flags (change : FlagChange)
  | literal (l : PatternChar)
  | dot
  /-- The start or end of a line or of the text. -/
  | anchor
  /-- The start or end of a word, or a place that is neither. -/
  | wordEdge
  | set (s : CharSet)
  | repetition (p : Pattern)
  | group (change : FlagChange) (p : Pattern)
  | sequence (p q : Pattern)
  | alternation (p q : Pattern)
  deriving Repr

/-! ## Lists of parts -/

def CharSet.ofItems : List CharSet → CharSet
  | [] => .empty
  | [s] => s
  | s :: rest => .union s (ofItems rest)

namespace Pattern

def inSequence : List Pattern → Pattern
  | [] => .empty
  | [p] => p
  | p :: rest => .sequence p (inSequence rest)

def anyOf : List Pattern → Pattern
  | [] => .empty
  | [p] => p
  | p :: rest => .alternation p (anyOf rest)

end Pattern

/-! ## Nesting -/

/-- How deep the parts of a set nest. A union is one part, however many sets it joins. -/
def CharSet.height : CharSet → Nat
  | empty | literal _ | range _ _ | named _ | shorthand _ => 0
  | bracket _ s => s.height + 1
  | union s (union t u) => max (s.height + 1) (union t u).height
  | union s t => max s.height t.height + 1
  | combination s t => max s.height t.height + 1

/-- How deep the parts of a pattern nest. A sequence is one part, however long, and so is an
alternation. -/
def Pattern.height : Pattern → Nat
  | empty | flags _ | literal _ | dot | anchor | wordEdge => 0
  | set s => s.height
  | repetition p => p.height + 1
  | group _ p => p.height + 1
  | sequence p (sequence q r) => max (p.height + 1) (sequence q r).height
  | sequence p q => max p.height q.height + 1
  | alternation p (alternation q r) => max (p.height + 1) (alternation q r).height
  | alternation p q => max p.height q.height + 1

/-! ## Support -/

structure MatchMode where
  caseless : Bool
  unicode : Bool
  deriving DecidableEq, Repr

namespace MatchMode

def initial : MatchMode := ⟨false, true⟩

def change (m : MatchMode) (c : FlagChange) : MatchMode :=
  ⟨c.caseless.getD m.caseless, c.unicode.getD m.unicode⟩

end MatchMode

def PatternChar.isAscii (l : PatternChar) : Bool := l.char.toNat < 0x80

/-- The character can be matched by itself. A byte beyond ASCII is part of a character. -/
def PatternChar.isSupported (m : MatchMode) (l : PatternChar) : Bool :=
  if m.unicode then !m.caseless else !l.byte || l.isAscii

def CharSet.isSupported (m : MatchMode) : CharSet → Bool
  | empty => true
  | literal l => if m.unicode then !m.caseless else l.isAscii
  | range low high => if m.unicode then !m.caseless else low.isAscii && high.isAscii
  | named negated => if m.unicode then !m.caseless else !negated
  | shorthand negated => !m.unicode && !negated
  | bracket negated s => s.isSupported m && (m.unicode || !negated)
  | union s t => s.isSupported m && t.isSupported m
  | combination s t => s.isSupported m && t.isSupported m

namespace Pattern

/-- The flags after a pattern that can be matched. Those set inside a group end with it. -/
def modeAfter? (m : MatchMode) : Pattern → Option MatchMode
  | empty | anchor => some m
  | flags change => some (m.change change)
  | literal l => if l.isSupported m then some m else none
  | dot => if m.unicode then some m else none
  | wordEdge => if m.unicode then none else some m
  | set s => if s.isSupported m then some m else none
  | repetition p => p.modeAfter? m
  | group change p => (p.modeAfter? (m.change change)).map fun _ => m
  | sequence p q => (p.modeAfter? m).bind q.modeAfter?
  | alternation p q => (p.modeAfter? m).bind q.modeAfter?

def maxHeight : Nat := 250

def isSupported (p : Pattern) : Bool :=
  p.height ≤ maxHeight && (p.modeAfter? .initial).isSome

end Pattern

end GuardedData
