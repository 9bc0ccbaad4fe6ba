import GuardedData.Json.Printer
import GuardedData.Schema.Kind

/-!
# Writing schema documents

A schema has two encodings. `toJson?` builds a generic document, which cannot
hold a big integer outside 64 bits; `toText` writes the compact text at once
and holds any. Declared fields keep their order.
-/

namespace GuardedData

/-- The integer fits into 64 bits, with or without a sign. -/
def fitsWord (n : Int) : Bool := -(Nat.pow 2 63 : Nat) ≤ n && n < (Nat.pow 2 64 : Nat)

namespace Literal

def exampleToJson? : Literal → Option Json
  | string s => some (.string s)
  | number x => some (if x.isFinite then .number (.float x) else .null)
  | bool b => some (.bool b)
  | bigint n => if fitsWord n then some (.number (.int n)) else none

def exampleToText : Literal → String
  | string s => Json.renderString s
  | number x => (Number.float x).render
  | bool b => if b then "true" else "false"
  | bigint n => toString n

def toJson? (l : Literal) : Option Json :=
  l.exampleToJson?.map fun j => .object [("kind", .string l.kindName), ("example", j)]

def toText (l : Literal) : String :=
  "\x7b\"kind\":" ++ Json.renderString l.kindName ++ ",\"example\":" ++ l.exampleToText ++ "\x7d"

end Literal

namespace Schema

/-- A document of a kind that holds something under a name. -/
def document (k : SchemaKind) (name : String) (content : Json) : Json :=
  .object [("type", .string k.name), (name, content)]

mutual

def toJson? : Schema → Option Json
  | .tag name => some (document .tag "name" (.string name))
  | .literal value => value.toJson?.map (document .literal "value")
  | .array items => (toJson? items).map (document .array "items")
  | .object fields => (fieldsToJson? fields).map fun ms => document .object "fields" (.object ms)
  | .nullable inner => (toJson? inner).map (document .nullable "inner")
  | .optional inner => (toJson? inner).map (document .optional "inner")
  | .union branches =>
    (branchesToJson? branches).map fun js => document .union "anyOf" (.array js)
  | .undefined => some (.object [("type", .string SchemaKind.undefined.name)])
  | .null => some (.object [("type", .string SchemaKind.null.name)])
  | .any => some (.object [("type", .string SchemaKind.any.name)])
  | .unknown => some (.object [("type", .string SchemaKind.unknown.name)])
  | .never => some (.object [("type", .string SchemaKind.never.name)])

def fieldsToJson? : List (String × Schema) → Option (List (String × Json))
  | [] => some []
  | (k, s) :: rest => do
    let j ← toJson? s
    let js ← fieldsToJson? rest
    some ((k, j) :: js)

def branchesToJson? : List Schema → Option (List Json)
  | [] => some []
  | s :: rest => do
    let j ← toJson? s
    let js ← branchesToJson? rest
    some (j :: js)

end

/-- The text of a document of a kind that holds something under a name. -/
def documentText (k : SchemaKind) (name content : String) : String :=
  "\x7b\"type\":" ++ Json.renderString k.name ++ "," ++ Json.renderString name ++ ":" ++ content
    ++ "\x7d"

/-- The text of a document of a kind that holds nothing. -/
def bareText (k : SchemaKind) : String :=
  "\x7b\"type\":" ++ Json.renderString k.name ++ "\x7d"

mutual

def toText : Schema → String
  | .tag name => documentText .tag "name" (Json.renderString name)
  | .literal value => documentText .literal "value" value.toText
  | .array items => documentText .array "items" (toText items)
  | .object fields =>
    documentText .object "fields" ("\x7b" ++ ",".intercalate (fieldTexts fields) ++ "\x7d")
  | .nullable inner => documentText .nullable "inner" (toText inner)
  | .optional inner => documentText .optional "inner" (toText inner)
  | .union branches =>
    documentText .union "anyOf" ("[" ++ ",".intercalate (branchTexts branches) ++ "]")
  | .undefined => bareText .undefined
  | .null => bareText .null
  | .any => bareText .any
  | .unknown => bareText .unknown
  | .never => bareText .never

def fieldTexts : List (String × Schema) → List String
  | [] => []
  | (k, s) :: rest => (Json.renderString k ++ ":" ++ toText s) :: fieldTexts rest

def branchTexts : List Schema → List String
  | [] => []
  | s :: rest => toText s :: branchTexts rest

end

end Schema

end GuardedData
