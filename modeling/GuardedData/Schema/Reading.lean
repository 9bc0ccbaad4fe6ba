import GuardedData.Json.Reader
import GuardedData.Schema.Decoding

/-!
# Schemas of JSON texts

A text can be read in two ways. `ofGenericText` reads the generic document
first, so that a malformed text is always reported as such. `ofText` looks at
the kind of the outermost document as soon as it comes by: the text after a
kind that cannot be right is not read any more. Inner documents keep repeated
names, which are then refused where they count.
-/

namespace GuardedData.Schema

/-- The schema of a text by way of its generic document. -/
def ofGenericText (text : String) : Except ReadError Schema :=
  match Json.read text with
  | none => .error .malformed
  | some j =>
    match ofDocument? j with
    | none => .error .mismatched
    | some s => .ok s

/-- A reader's answer, or the report that the text is malformed. -/
def orMalformed {α : Type} : Option α → Except ReadError α
  | some a => .ok a
  | none => .error .malformed

/-- A value inside the outermost document. -/
def innerValue : Reader Json := Json.value (Json.maxDepth - 1)

/-- The name of a kind. Of a value of another form only the first token is read. -/
def readKind (cs : List Char) : Except ReadError (Json × List Char) :=
  match Json.skipSpace cs with
  | '[' :: _ => .error .mismatched
  | '{' :: _ => .error .mismatched
  | cs =>
    match Json.scalar cs with
    | none => .error .malformed
    | some (.string name, rest) =>
      match SchemaKind.ofName? name with
      | none => .error .mismatched
      | some _ => .ok (.string name, rest)
    | some _ => .error .mismatched

/-- The members of the outermost object up to its end. The first argument bounds their number;
`seen` says that the kind has come by. -/
def readMembers : Nat → Bool → List Char → Except ReadError (List (String × Json) × List Char)
  | 0, _, _ => .error .malformed
  | bound + 1, seen, cs => do
    let (name, rest) ← orMalformed (Json.memberName cs)
    let isKind := name = "type"
    if isKind && seen then throw .mismatched
    let rest ← orMalformed (Json.skipColon rest)
    let (j, rest) ← if isKind then readKind rest else orMalformed (innerValue rest)
    match Json.skipSpace rest with
    | ',' :: rest => do
      let (members, rest) ← readMembers bound (seen || isKind) rest
      return ((name, j) :: members, rest)
    | '}' :: rest => return ([(name, j)], rest)
    | _ => throw .malformed

/-- The items of the outermost array up to its end, the kind first. -/
def readItems (cs : List Char) : Except ReadError (List Json × List Char) :=
  match Json.skipSpace cs with
  | ']' :: _ => .error .mismatched
  | cs => do
    let (kind, rest) ← readKind cs
    match Json.skipSpace rest with
    | ',' :: rest => do
      let (items, rest) ← orMalformed (Json.elements innerValue ']' (rest.length + 1) rest)
      return (kind :: items, rest)
    | ']' :: rest => return ([kind], rest)
    | _ => throw .malformed

/-- The outermost document as far as it goes, and the rest of the text. -/
def readOutermost (cs : List Char) : Except ReadError (Json × List Char) :=
  match Json.skipSpace cs with
  | '{' :: rest =>
    match Json.skipSpace rest with
    | '}' :: rest => .ok (.object [], rest)
    | rest => do
      let (members, rest) ← readMembers (rest.length + 1) false rest
      return (.object members, rest)
  | '[' :: rest => do
    let (items, rest) ← readItems rest
    return (.array items, rest)
  | cs => orMalformed (Json.scalar cs)

/-- The schema of a text. Text after a document is reported only if the document is right. -/
def ofText (text : String) : Except ReadError Schema := do
  let (j, rest) ← readOutermost text.toList
  match ofDocument? j with
  | none => throw .mismatched
  | some s => if (Json.skipSpace rest).isEmpty then return s else throw .malformed

end GuardedData.Schema
