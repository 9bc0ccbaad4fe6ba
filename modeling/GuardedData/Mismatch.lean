/-!
# Mismatches

Why a value does not match a schema: the reason, the expected shape, the kind
found, and the path of steps from the root to the place. The text of a path
joins names by dots and puts indices in brackets.
-/

namespace GuardedData

/-- The condition that makes a match fail. -/
inductive Reason where
  /-- Absence was demanded but a value was there, or the other way round. -/
  | absence
  /-- The kind is not the declared one. -/
  | kind
  /-- There is no array or structure where one was required. -/
  | shape
  /-- No branch of a union matched. -/
  | unionExhausted
  /-- There must not be any value. -/
  | never
  deriving DecidableEq, Repr

def Reason.code : Reason → String
  | absence => "SHAPE_ABSENCE_MISMATCH"
  | kind => "SHAPE_KIND_MISMATCH"
  | shape => "SHAPE_STRUCTURE_MISMATCH"
  | unionExhausted => "SHAPE_UNION_EXHAUSTED"
  | never => "SHAPE_NEVER_VIOLATION"

/-- One step from a value to a value inside it. -/
inductive PathStep where
  | field (name : String)
  | index (i : Nat)
  deriving DecidableEq, Repr

/-- The steps from the root to a place. -/
abbrev Path := List PathStep

namespace Path

/-- The path goes on without a dot: it is empty or starts with a bracket. -/
def isAttached (text : String) : Bool := text.isEmpty || text.front = '['

/-- The text of a path; a dot separates a step from a name after it. -/
def render : Path → String
  | [] => ""
  | .field name :: rest =>
    let text := render rest
    if isAttached text then name ++ text else name ++ "." ++ text
  | .index i :: rest =>
    let text := render rest
    let here := "[" ++ toString i ++ "]"
    if isAttached text then here ++ text else here ++ "." ++ text

end Path

structure Mismatch where
  reason : Reason
  expected : String
  actual : String
  path : Path
  deriving DecidableEq, Repr

namespace Mismatch

def atRoot (reason : Reason) (expected actual : String) : Mismatch :=
  ⟨reason, expected, actual, []⟩

/-- Absence where a value was expected, or the other way round. -/
def absence (expected actual : String) : Mismatch := atRoot .absence expected actual

/-- Another kind than the expected one. -/
def kind (expected actual : String) : Mismatch := atRoot .kind expected actual

def shape (expected actual : String) : Mismatch := atRoot .shape expected actual

def unionExhausted (expected actual : String) : Mismatch :=
  atRoot .unionExhausted expected actual

/-- A value where there must not be any. -/
def never (actual : String) : Mismatch := atRoot .never "never" actual

/-- The mismatch seen from the value that has the place under `step`. -/
def under (m : Mismatch) (step : PathStep) : Mismatch := { m with path := step :: m.path }

def code (m : Mismatch) : String := m.reason.code

def location (m : Mismatch) : String := m.path.render

/-- The message, which leaves out the place. -/
def message (m : Mismatch) : String :=
  "Validation error: Expected " ++ m.expected ++ " but got " ++ m.actual

end Mismatch

end GuardedData
