import GuardedData.Schema.Kind

/-!
# Schemas of JSON documents

A schema document is an object with its kind under `type`, in any place, and
its contents under the name that the kind asks for; other names are ignored,
but a name that counts must not be repeated. An array of the kind and the
contents means the same. `ofSubdocument?` decodes a document inside another
one, `ofDocument?` a whole one, where the kind has to be given by name.
-/

namespace GuardedData

namespace Json

def string? : Json → Option String
  | .string s => some s
  | _ => none

/-- The document carries no information. -/
def isUnit : Json → Bool
  | .null => true
  | .object [] => true
  | _ => false

end Json

namespace Literal

/-- The names of the kinds of literals, in order. -/
def kindNames : List String := ["string", "number", "boolean", "bigint"]

/-- The name of the kind under `kind`: a string, or an object with the name over nothing. -/
def memberKind? : Json → Option String
  | .string s => some s
  | .object [(s, unit)] => if unit.isUnit then some s else none
  | _ => none

/-- The name of the kind in front of an example: a string, or its place among the names. -/
def itemKind? : Json → Option String
  | .string s => some s
  | .number (.int n) => if n < 0 then none else kindNames[n.toNat]?
  | _ => none

/-- The literal of a kind and an example. Big integers are written but never read. -/
def ofParts? (kind : String) (sample : Json) : Option Literal :=
  match kind, sample with
  | "string", .string s => some (.string s)
  | "number", .number n => some (.number n.toFloat)
  | "boolean", .bool b => some (.bool b)
  | _, _ => none

def ofJson? : Json → Option Literal
  | .object members => do
    let kind ← (Keyed.only? "kind" members).bind memberKind?
    let sample ← Keyed.only? "example" members
    ofParts? kind sample
  | .array [kind, sample] => (itemKind? kind).bind fun kind => ofParts? kind sample
  | _ => none

end Literal

namespace Schema

mutual

/-- The schema of a document inside another one. -/
def ofSubdocument? : Json → Option Schema
  | .object members =>
    match (Keyed.only? "type" members).bind SchemaKind.ofJson? with
    | none => none
    | some .undefined => some .undefined
    | some .null => some .null
    | some .any => some .any
    | some .unknown => some .unknown
    | some .never => some .never
    | some .tag => ((Keyed.only? "name" members).bind Json.string?).map .tag
    | some .literal => ((Keyed.only? "value" members).bind Literal.ofJson?).map .literal
    | some .array => (schemaUnder? "items" members).map .array
    | some .nullable => (schemaUnder? "inner" members).map .nullable
    | some .optional => (schemaUnder? "inner" members).map .optional
    | some .object => (fieldsUnder? "fields" members).map .object
    | some .union => (branchesUnder? "anyOf" members).map .union
  | .array [kind] =>
    match SchemaKind.ofJson? kind with
    | some .undefined => some .undefined
    | some .null => some .null
    | some .any => some .any
    | some .unknown => some .unknown
    | some .never => some .never
    | _ => none
  | .array [kind, content] =>
    match SchemaKind.ofJson? kind with
    | some .tag => content.string?.map .tag
    | some .literal => (Literal.ofJson? content).map .literal
    | some .array => (ofSubdocument? content).map .array
    | some .nullable => (ofSubdocument? content).map .nullable
    | some .optional => (ofSubdocument? content).map .optional
    | some .object => (fieldsOf? content).map .object
    | some .union => (branchesOf? content).map .union
    | _ => none
  | _ => none

/-- The schema under a name that must be there exactly once. -/
def schemaUnder? (name : String) : List (String × Json) → Option Schema
  | [] => none
  | (k, j) :: rest =>
    if k = name then (if (rest.any fun p => p.1 = name) then none else ofSubdocument? j)
    else schemaUnder? name rest

/-- The fields under a name that must be there exactly once. -/
def fieldsUnder? (name : String) : List (String × Json) → Option (List (String × Schema))
  | [] => none
  | (k, j) :: rest =>
    if k = name then (if (rest.any fun p => p.1 = name) then none else fieldsOf? j)
    else fieldsUnder? name rest

/-- The branches under a name that must be there exactly once. -/
def branchesUnder? (name : String) : List (String × Json) → Option (List Schema)
  | [] => none
  | (k, j) :: rest =>
    if k = name then (if (rest.any fun p => p.1 = name) then none else branchesOf? j)
    else branchesUnder? name rest

/-- The fields of an object; the last schema of a repeated name counts. -/
def fieldsOf? : Json → Option (List (String × Schema))
  | .object members => (fieldList? members).map Keyed.ofList
  | _ => none

def fieldList? : List (String × Json) → Option (List (String × Schema))
  | [] => some []
  | (k, j) :: rest => do
    let s ← ofSubdocument? j
    let ss ← fieldList? rest
    some ((k, s) :: ss)

def branchesOf? : Json → Option (List Schema)
  | .array items => branchList? items
  | _ => none

def branchList? : List Json → Option (List Schema)
  | [] => some []
  | j :: rest => do
    let s ← ofSubdocument? j
    let ss ← branchList? rest
    some (s :: ss)

end

/-- The kind of the document is given by name. -/
def isNamed : Json → Bool
  | .object members => ((Keyed.only? "type" members).bind Json.string?).isSome
  | .array (kind :: _) => kind.string?.isSome
  | _ => false

/-- The schema of a whole document. -/
def ofDocument? (j : Json) : Option Schema := if isNamed j then ofSubdocument? j else none

end Schema

end GuardedData
