import GuardedData.Decimal.Style
import GuardedData.Heap.Basic
import GuardedData.Text.Quoted

/-!
# Values in diagnostics

The text of a value: strings in quotes, big integers with an `n`, compounds in
brackets, and a summary of what is opaque.
-/

namespace GuardedData

def numberText (x : Float) : String :=
  if x.isNaN then "NaN"
  else if x.isInf then (if x < 0 then "-inf" else "inf")
  else Style.diagnostic.write x

def braced (parts : List String) : String := "\x7b" ++ ", ".intercalate parts ++ "\x7d"

def bracketed (parts : List String) : String := "[" ++ ", ".intercalate parts ++ "]"

namespace Value

mutual

/-- The text of a value, given that of handles. -/
def renderWith (handles : Handle → String) : Value → String
  | .undefined => "undefined"
  | .null => "null"
  | .bool b => if b then "true" else "false"
  | .number x => numberText x
  | .bigint n => toString n ++ "n"
  | .string s => Text.quote s
  | .symbol s => "Symbol(" ++ s.description.getD "" ++ ")"
  | .date t => "Date(" ++ t.render ++ ")"
  | .function f => "[function " ++ f.name ++ "]"
  | .map entries => braced (renderEntriesWith handles entries)
  | .set items => braced (renderItemsWith handles items)
  | .bytes content => "Bytes(" ++ toString content.length ++ " bytes)"
  | .typedArray content => content.kind.name ++ "(" ++ toString content.length ++ ")"
  | .object r => handles (.object r)
  | .array r => handles (.array r)

def renderItemsWith (handles : Handle → String) : List Value → List String
  | [] => []
  | v :: rest => renderWith handles v :: renderItemsWith handles rest

def renderEntriesWith (handles : Handle → String) : List (Value × Value) → List String
  | [] => []
  | (k, v) :: rest =>
    (renderWith handles k ++ ": " ++ renderWith handles v) :: renderEntriesWith handles rest

end

end Value

namespace Heap

/-- The text of a handle, given that of the values it holds. -/
def renderHandle (h : Heap) (render : Value → String) : Handle → String
  | .object r =>
    braced ((h.object r).toList.map fun (k, v) => Text.quote k ++ ": " ++ render v)
  | .array r => bracketed ((h.array r).map render)

/-- The text of a value that looks through at most so many handles. -/
def renderUpTo (h : Heap) : Nat → Value → String
  | 0 => Value.renderWith fun _ => "…"
  | n + 1 => Value.renderWith (h.renderHandle (h.renderUpTo n))

/-- The text of a value without cycles. -/
def render (h : Heap) (v : Value) : String := h.renderUpTo h.depth v

end Heap

end GuardedData
