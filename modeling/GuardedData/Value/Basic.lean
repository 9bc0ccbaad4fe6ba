import GuardedData.Timestamp

/-!
# Values

A dynamic value is a scalar, a compound of fixed contents, or a handle: an
object or an array is named by the serial number of its cell in a heap, so
that every holder of the handle sees the same contents.
-/

namespace GuardedData

/-- The element kind of a typed numeric array. -/
inductive TypedArrayKind where
  | int8
  | uint8
  | uint8Clamped
  | int16
  | uint16
  | int32
  | uint32
  | float32
  | float64
  deriving DecidableEq, Repr

namespace TypedArrayKind

def all : List TypedArrayKind :=
  [int8, uint8, uint8Clamped, int16, uint16, int32, uint32, float32, float64]

/-- The name of the kind, which is also the name of its tag. -/
def name : TypedArrayKind → String
  | int8 => "int8array"
  | uint8 => "uint8array"
  | uint8Clamped => "uint8clampedarray"
  | int16 => "int16array"
  | uint16 => "uint16array"
  | int32 => "int32array"
  | uint32 => "uint32array"
  | float32 => "float32array"
  | float64 => "float64array"

end TypedArrayKind

inductive TypedArray where
  | int8 (items : List Int8)
  | uint8 (items : List UInt8)
  | uint8Clamped (items : List UInt8)
  | int16 (items : List Int16)
  | uint16 (items : List UInt16)
  | int32 (items : List Int32)
  | uint32 (items : List UInt32)
  | float32 (items : List Float32)
  | float64 (items : List Float)

namespace TypedArray

def kind : TypedArray → TypedArrayKind
  | int8 _ => .int8
  | uint8 _ => .uint8
  | uint8Clamped _ => .uint8Clamped
  | int16 _ => .int16
  | uint16 _ => .uint16
  | int32 _ => .int32
  | uint32 _ => .uint32
  | float32 _ => .float32
  | float64 _ => .float64

/-- The elements as binary64 numbers; every element kind fits. -/
def toFloats : TypedArray → List Float
  | int8 items => items.map fun n => Float.ofInt n.toInt
  | uint8 items => items.map fun n => Float.ofNat n.toNat
  | uint8Clamped items => items.map fun n => Float.ofNat n.toNat
  | int16 items => items.map fun n => Float.ofInt n.toInt
  | uint16 items => items.map fun n => Float.ofNat n.toNat
  | int32 items => items.map fun n => Float.ofInt n.toInt
  | uint32 items => items.map fun n => Float.ofNat n.toNat
  | float32 items => items.map Float32.toFloat
  | float64 items => items

def length : TypedArray → Nat
  | int8 items => items.length
  | uint8 items => items.length
  | uint8Clamped items => items.length
  | int16 items => items.length
  | uint16 items => items.length
  | int32 items => items.length
  | uint32 items => items.length
  | float32 items => items.length
  | float64 items => items.length

def isEmpty (t : TypedArray) : Bool := t.length = 0

/-- Same kind and same elements, which are compared as numbers: a NaN differs from itself. -/
def beq : TypedArray → TypedArray → Bool
  | int8 a, int8 b => a == b
  | uint8 a, uint8 b => a == b
  | uint8Clamped a, uint8Clamped b => a == b
  | int16 a, int16 b => a == b
  | uint16 a, uint16 b => a == b
  | int32 a, int32 b => a == b
  | uint32 a, uint32 b => a == b
  | float32 a, float32 b => a == b
  | float64 a, float64 b => a == b
  | _, _ => false

end TypedArray

/-- A unique token. Tokens are never used twice, so equal tokens come with equal
descriptions. -/
structure Symbol where
  token : Nat
  description : Option String
  deriving DecidableEq, Repr

/-- The serial number of a heap cell. -/
abbrev Ref := Nat

/-- A named callable; its body is a cell of the heap. -/
structure Function where
  name : String
  body : Ref
  deriving DecidableEq, Repr

inductive Value where
  | undefined
  | null
  | bool (b : Bool)
  | number (x : Float)
  | bigint (n : Int)
  | string (s : String)
  | symbol (s : Symbol)
  | date (t : Timestamp)
  | function (f : Function)
  /-- Pairs in order; a key may be any value. -/
  | map (entries : List (Value × Value))
  | set (items : List Value)
  | bytes (content : List UInt8)
  | typedArray (content : TypedArray)
  | object (ref : Ref)
  | array (ref : Ref)
  deriving Inhabited

/-- The kind of a value, all that most checks look at. -/
inductive Kind where
  | undefined
  | null
  | bool
  | number
  | bigint
  | string
  | symbol
  | date
  | function
  | map
  | set
  | bytes
  | typedArray (element : TypedArrayKind)
  | object
  | array
  deriving DecidableEq, Repr

/-- The name of a kind in diagnostics. -/
def Kind.name : Kind → String
  | undefined => "undefined"
  | null => "null"
  | bool => "boolean"
  | number => "number"
  | bigint => "bigint"
  | string => "string"
  | symbol => "symbol"
  | date => "date"
  | function => "function"
  | map => "map"
  | set => "set"
  | bytes => "bytes"
  | typedArray element => element.name
  | object => "object"
  | array => "array"

/-- What a guarded view can wrap: an object or an array. -/
inductive Handle where
  | object (ref : Ref)
  | array (ref : Ref)
  deriving DecidableEq, Repr

def Handle.toValue : Handle → Value
  | .object r => .object r
  | .array r => .array r

/-- The serial number of the cell. -/
def Handle.ref : Handle → Ref
  | .object r => r
  | .array r => r

namespace Value

def kind : Value → Kind
  | undefined => .undefined
  | null => .null
  | bool _ => .bool
  | number _ => .number
  | bigint _ => .bigint
  | string _ => .string
  | symbol _ => .symbol
  | date _ => .date
  | function _ => .function
  | map _ => .map
  | set _ => .set
  | bytes _ => .bytes
  | typedArray content => .typedArray content.kind
  | object _ => .object
  | array _ => .array

def kindName (v : Value) : String := v.kind.name

/-- The handle that the value is, if it is an object or an array. -/
def handle? : Value → Option Handle
  | object r => some (.object r)
  | array r => some (.array r)
  | _ => none

/-- The value is an object or an array. -/
def isComposite (v : Value) : Bool := v.handle?.isSome

def isUndefined : Value → Bool
  | undefined => true
  | _ => false

/-- The value is the explicit null. -/
def isNull : Value → Bool
  | null => true
  | _ => false

def number? : Value → Option Float
  | number x => some x
  | _ => none

def string? : Value → Option String
  | string s => some s
  | _ => none

def bool? : Value → Option Bool
  | bool b => some b
  | _ => none

/-- Both are the same object, array or function. No scalar is the same as anything. -/
def same : Value → Value → Bool
  | object a, object b => a = b
  | array a, array b => a = b
  | function f, function g => f.body = g.body
  | _, _ => false

end Value

theorem Handle.handle?_toValue (h : Handle) : h.toValue.handle? = some h := by
  cases h <;> rfl

theorem Value.handle?_eq_some_iff {v : Value} {h : Handle} :
    v.handle? = some h ↔ v = h.toValue := by
  constructor
  · intro e
    cases v <;> simp [Value.handle?] at e <;> subst e <;> rfl
  · rintro rfl
    exact h.handle?_toValue

end GuardedData
