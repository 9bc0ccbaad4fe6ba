import GuardedData.Keyed
import GuardedData.Json.Number

/-!
# JSON documents

`Json` is a document as it is written: an object keeps its members in order
and may repeat a name. `collapse` gives the generic document, in which a
repeated name has its last value in its first place.
-/

namespace GuardedData

inductive Json where
  | null
  | bool (b : Bool)
  | number (n : Number)
  | string (s : String)
  | array (items : List Json)
  | object (members : List (String × Json))
  deriving Inhabited

namespace Json

mutual

/-- Every repeated name of every object has only its last value, in its first place. -/
def collapse : Json → Json
  | .array items => .array (collapseItems items)
  | .object members => .object (Keyed.ofList (collapseMembers members))
  | .null => .null
  | .bool b => .bool b
  | .number n => .number n
  | .string s => .string s

def collapseItems : List Json → List Json
  | [] => []
  | j :: rest => collapse j :: collapseItems rest

def collapseMembers : List (String × Json) → List (String × Json)
  | [] => []
  | (k, j) :: rest => (k, collapse j) :: collapseMembers rest

end

end Json

end GuardedData
