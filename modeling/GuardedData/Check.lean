import GuardedData.Catalogue
import GuardedData.Mismatch
import GuardedData.Schema.Basic

/-!
# Checking values against schemas

`check` walks a schema and a value together and gives the first mismatch in
document order: declared fields in order, elements by index. It recurses on
the schema only, so that it ends on cyclic data too. A missing field, and any
field of a value that is not an object, reads as absent.
-/

namespace GuardedData

def require (condition : Bool) (m : Mismatch) : Except Mismatch Unit :=
  if condition then .ok () else .error m

/-- Checks elements from index `i` on, up to the first mismatch. -/
def checkElements (check : Value → Except Mismatch Unit) : Nat → List Value → Except Mismatch Unit
  | _, [] => .ok ()
  | i, v :: rest =>
    match check v with
    | .error m => .error (m.under (.index i))
    | .ok () => checkElements check (i + 1) rest

mutual

def check (c : Catalogue) (h : Heap) : Schema → Value → Except Mismatch Unit
  | .undefined, v => require v.isUndefined (.absence "undefined" v.kindName)
  | .null, v => require v.isNull (.kind "null" v.kindName)
  | .tag name, v => require (c.accepts? h name v == some true) (.kind name v.kindName)
  | .literal l, v => require (l.sameKind v) (.kind l.kindName v.kindName)
  | .array items, v =>
    match v with
    | .array r => checkElements (check c h items) 0 (h.array r)
    | _ => .error (.shape (Schema.array items).describe v.kindName)
  | .nullable inner, v =>
    if v.isUndefined then .error (.absence inner.describe "undefined")
    else if v.isNull then .ok ()
    else check c h inner v
  | .optional inner, v => if v.isUndefined then .ok () else check c h inner v
  | .union branches, v =>
    require (acceptsSome c h branches v)
      (.unionExhausted (Schema.union branches).describe v.kindName)
  | .any, _ => .ok ()
  | .unknown, _ => .ok ()
  | .never, v => .error (.never v.kindName)
  | .object fields, v =>
    if v.isUndefined || v.isNull then
      .error (.shape (Schema.object fields).describe v.kindName)
    else checkFields c h fields v

/-- Checks the declared fields of a value, up to the first mismatch. -/
def checkFields (c : Catalogue) (h : Heap) :
    List (String × Schema) → Value → Except Mismatch Unit
  | [], _ => .ok ()
  | (key, s) :: rest, v =>
    match check c h s (h.field v key) with
    | .error m => .error (m.under (.field key))
    | .ok () => checkFields c h rest v

def acceptsSome (c : Catalogue) (h : Heap) : List Schema → Value → Bool
  | [], _ => false
  | s :: rest, v => (check c h s v).isOk || acceptsSome c h rest v

end

def conforms (c : Catalogue) (h : Heap) (s : Schema) (v : Value) : Bool := (check c h s v).isOk

/-- A number has no fields, so that the declared one is absent. -/
example : conforms .empty .empty (.object [("a", .optional .never)]) (.number 1) = true := by cbv

/-- The value itself if it matches, or the first mismatch. -/
def validate (c : Catalogue) (h : Heap) (s : Schema) (v : Value) : Except Mismatch Value :=
  (check c h s v).map fun _ => v

def validate? (c : Catalogue) (h : Heap) (s : Schema) (v : Value) : Option Value :=
  (validate c h s v).toOption

end GuardedData
