import GuardedData.Heap.Basic
import GuardedData.Text.Quoted

/-!
# Catalogues of tags

A catalogue maps tag names to predicates over values. `builtin` has the kinds
of values, with `object` for everything compound; a tag that is not registered
accepts nothing.
-/

namespace GuardedData

/-- Decides whether a value belongs to a tag; it may look into the heap. -/
abbrev TagPredicate := Heap → Value → Bool

/-- Predicates under tag names. -/
structure Catalogue where
  entries : Std.ExtTreeMap String TagPredicate

namespace Catalogue

def empty : Catalogue := ⟨∅⟩

/-- Registers a tag in place of any of the same name. -/
def register (c : Catalogue) (name : String) (p : TagPredicate) : Catalogue :=
  ⟨c.entries.insert name p⟩

/-- Whether the tag accepts the value; `none` if it is not registered. -/
def accepts? (c : Catalogue) (h : Heap) (name : String) (v : Value) : Option Bool :=
  c.entries[name]?.map fun p => p h v

def contains (c : Catalogue) (name : String) : Bool := c.entries.contains name

/-- The registered names in order. -/
def names (c : Catalogue) : List String := c.entries.keys

def ofKind (k : Kind) : TagPredicate := fun _ v => v.kind = k

/-- Accepts every compound value, arrays included, but neither null nor functions. -/
def compound : TagPredicate := fun _ v =>
  match v.kind with
  | .object | .array | .date | .map | .set | .bytes | .typedArray _ => true
  | _ => false

def taggedKinds : List Kind :=
  [.string, .number, .bool, .bigint, .symbol, .date, .function, .map, .set, .bytes]
    ++ TypedArrayKind.all.map Kind.typedArray

/-- The catalogue of the kinds of values. -/
def builtin : Catalogue :=
  taggedKinds.foldl (fun c k => c.register k.name (ofKind k))
    (empty.register Kind.object.name compound)

def render (c : Catalogue) : String :=
  "TypeCatalogue \x7b tags: [" ++ ", ".intercalate (c.names.map Text.quote) ++ "] \x7d"

end Catalogue

end GuardedData
