import GuardedData.Json.Basic
import GuardedData.Schema.Basic

/-!
# Kinds of schemas

The name of each way to build a schema, as documents give it under `type`.
Inside a document the place in the list of all kinds may stand for the name.
-/

namespace GuardedData

/-- One of the ways to build a schema. -/
inductive SchemaKind where
  | undefined
  | null
  | tag
  | literal
  | array
  | object
  | nullable
  | optional
  | union
  | any
  | unknown
  | never
  deriving DecidableEq, Repr

namespace SchemaKind

def all : List SchemaKind :=
  [undefined, null, tag, literal, array, object, nullable, optional, union, any, unknown, never]

def name : SchemaKind → String
  | undefined => "undefined"
  | null => "null"
  | tag => "tag"
  | literal => "literal"
  | array => "array"
  | object => "object"
  | nullable => "nullable"
  | optional => "optional"
  | union => "union"
  | any => "any"
  | unknown => "unknown"
  | never => "never"

def ofName? (s : String) : Option SchemaKind := all.find? fun k => k.name = s

/-- The kind that a document names, or gives the place of. -/
def ofJson? : Json → Option SchemaKind
  | .string s => ofName? s
  | .number (.int n) => if n < 0 then none else all[n.toNat]?
  | _ => none

end SchemaKind

/-- The way in which a schema is built. -/
def Schema.kind : Schema → SchemaKind
  | .undefined => .undefined
  | .null => .null
  | .tag _ => .tag
  | .literal _ => .literal
  | .array _ => .array
  | .object _ => .object
  | .nullable _ => .nullable
  | .optional _ => .optional
  | .union _ => .union
  | .any => .any
  | .unknown => .unknown
  | .never => .never

end GuardedData
