import GuardedData.Keyed
import GuardedData.Value.Basic

/-!
# Schemas

A schema is a finite tree that describes the values expected at one place.
`describe` is its text in messages, `fieldSchema` and `elementSchema` give the
schema of a place inside the values that a schema describes.
-/

namespace GuardedData

/-- A primitive example. It stands for its kind, not for its value. -/
inductive Literal where
  | string (s : String)
  | number (x : Float)
  | bool (b : Bool)
  | bigint (n : Int)
  deriving DecidableEq

namespace Literal

/-- The kind that the example stands for. -/
def kind : Literal → Kind
  | string _ => .string
  | number _ => .number
  | bool _ => .bool
  | bigint _ => .bigint

def kindName (l : Literal) : String := l.kind.name

/-- The value is of the kind that the example stands for. -/
def sameKind (l : Literal) (v : Value) : Bool := l.kind = v.kind

/-- The same example; numbers are compared as numbers. -/
def beq : Literal → Literal → Bool
  | string a, string b => a == b
  | number a, number b => a == b
  | bool a, bool b => a == b
  | bigint a, bigint b => a == b
  | _, _ => false

end Literal

/-- A description of the values expected at one place. -/
inductive Schema where
  /-- Only absence. -/
  | undefined
  /-- Only the explicit null. -/
  | null
  /-- What the predicate registered under the name accepts. -/
  | tag (name : String)
  /-- Any value of the kind of the example. -/
  | literal (value : Literal)
  /-- An array whose elements all match. -/
  | array (items : Schema)
  /-- A value whose declared fields match; it may have others. -/
  | object (fields : List (String × Schema))
  /-- Null, or what the inner schema describes, but not absence. -/
  | nullable (inner : Schema)
  /-- Absence, or what the inner schema describes. -/
  | optional (inner : Schema)
  | union (branches : List Schema)
  | any
  | unknown
  | never
  deriving Inhabited

/-- The declared fields of an object, in order. -/
abbrev Fields := Keyed Schema

namespace Schema

/-! ## Equality -/

mutual

/-- The same schema, with declared fields and branches in the same order. -/
def beq : Schema → Schema → Bool
  | .undefined, .undefined => true
  | .null, .null => true
  | .tag a, .tag b => a == b
  | .literal a, .literal b => a.beq b
  | .array a, .array b => beq a b
  | .object a, .object b => beqFields a b
  | .nullable a, .nullable b => beq a b
  | .optional a, .optional b => beq a b
  | .union a, .union b => beqBranches a b
  | .any, .any => true
  | .unknown, .unknown => true
  | .never, .never => true
  | _, _ => false

def beqFields : List (String × Schema) → List (String × Schema) → Bool
  | [], [] => true
  | (k, a) :: as, (l, b) :: bs => k == l && beq a b && beqFields as bs
  | _, _ => false

def beqBranches : List Schema → List Schema → Bool
  | [], [] => true
  | a :: as, b :: bs => beq a b && beqBranches as bs
  | _, _ => false

end

instance : BEq Schema := ⟨beq⟩

/-! ## Descriptions -/

mutual

/-- The expected shape in messages. -/
def describe : Schema → String
  | .undefined => "undefined"
  | .null => "null"
  | .tag name => name
  | .literal value => value.kindName
  | .array items => "array<" ++ describe items ++ ">"
  | .object _ => "object"
  | .nullable inner => "nullable<" ++ describe inner ++ ">"
  | .optional inner => "optional<" ++ describe inner ++ ">"
  | .union branches =>
    if branches.isEmpty then "union<>" else ", ".intercalate (describeBranches branches)
  | .any => "any"
  | .unknown => "unknown"
  | .never => "never"

def describeBranches : List Schema → List String
  | [] => []
  | s :: rest => describe s :: describeBranches rest

end

/-! ## Schemas of inner places -/

mutual

/-- The schema of a field. Modifiers are looked through, and a union gives the union of what
its branches give; only absence belongs under a name that is not declared. -/
def fieldSchema (key : String) : Schema → Schema
  | .object fields => (Keyed.get? key fields).getD .undefined
  | .nullable inner => fieldSchema key inner
  | .optional inner => fieldSchema key inner
  | .union branches => .union (fieldSchemas key branches)
  | .any => .any
  | .unknown => .any
  | _ => .undefined

def fieldSchemas (key : String) : List Schema → List Schema
  | [] => []
  | s :: rest => fieldSchema key s :: fieldSchemas key rest

end

mutual

/-- The schema of every element. Modifiers are looked through, and a union gives the union of
what its branches give. -/
def elementSchema : Schema → Schema
  | .array items => items
  | .nullable inner => elementSchema inner
  | .optional inner => elementSchema inner
  | .union branches => .union (elementSchemas branches)
  | .any => .any
  | .unknown => .any
  | _ => .undefined

def elementSchemas : List Schema → List Schema
  | [] => []
  | s :: rest => elementSchema s :: elementSchemas rest

end

end Schema

end GuardedData
