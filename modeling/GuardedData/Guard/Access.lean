import GuardedData.Check
import GuardedData.Event
import GuardedData.Guard.Store

/-!
# Guarded reads and writes

`wrap` makes the root view of a new session, `get` reads a slot and gives a
view where the slot holds an object or an array, and `set` stores a value that
matches the schema of the slot. A refused or ignored write changes nothing.
-/

namespace GuardedData

inductive GuardError where
  /-- The value does not match the schema of the slot. -/
  | rejected (field : String) (cause : Mismatch)
  /-- Only objects and arrays can be guarded. -/
  | notComposite (kind : String)
  /-- The key addresses no element. -/
  | invalidKey (key : String) (target : String)
  | indexOutOfBounds (index length : Nat)
  deriving DecidableEq, Repr

namespace GuardError

def message : GuardError → String
  | rejected field cause => "Write to '" ++ field ++ "' rejected: " ++ cause.message
  | notComposite kind => "Cannot guard a value of kind " ++ kind
  | invalidKey key target => "Key '" ++ key ++ "' does not address an element of " ++ target
  | indexOutOfBounds index length =>
    "Index " ++ toString index ++ " out of bounds for length " ++ toString length

end GuardError

/-- What became of a write that did not fail. -/
inductive WriteOutcome where
  | committed
  /-- The value did not match and was dropped. -/
  | ignored
  deriving DecidableEq, Repr

/-- What a read gives. -/
inductive Field where
  /-- A view of the object or array in the slot. -/
  | view (id : ViewId)
  | value (v : Value)

/-- The result of an operation, the store after it, and what it reported. -/
structure Step (α : Type) where
  result : α
  store : Store
  events : List Event

namespace Store

/-- Wraps an object or an array. What it holds is not checked, only later writes are. -/
def wrap (s : Store) (schema : Schema) (v : Value) (options : Options) :
    Step (Except GuardError ViewId) :=
  match v.handle? with
  | none => ⟨.error (.notComposite v.kindName), s, []⟩
  | some target =>
    let (id, s') := addRoot { s with nextSession := s.nextSession + 1 }
      ⟨target, schema, s.nextSession, options, 1⟩
    ⟨.ok id, s', [.wrapped v.kindName schema.describe options.quiet]⟩

/-- Reads a slot of a view's target. The reader becomes a holder of the view that it gets:
the one of the session that is alive, or a new one. -/
def get (s : Store) (v : View) (key : Key) : Step Field :=
  let raw := s.heap.slot v.target key
  match raw.handle? with
  | none => ⟨.value raw, s, []⟩
  | some target =>
    match s.lookup? v.session target with
    | some id => ⟨.view id, s.hold id, [.viewReused key.render]⟩
    | none =>
      let (id, s') := s.addNested ⟨target, v.slotSchema key, v.session, v.options, 1⟩
      ⟨.view id, s', [.viewCreated key.render]⟩

/-- Whether a key addresses a slot that can be written: any key of an object, and any index
of an array up to its length. -/
def checkWritable (h : Heap) (target : Handle) (key : Key) : Except GuardError Unit :=
  match target with
  | .object _ => .ok ()
  | .array r =>
    match key.toIndex? with
    | none => .error (.invalidKey key.render "array")
    | some i =>
      let length := (h.array r).length
      if length < i then .error (.indexOutOfBounds i length) else .ok ()

/-- Stores a value in a slot of a view's target if it matches the schema of the slot. -/
def set (s : Store) (v : View) (key : Key) (value : Value) :
    Step (Except GuardError WriteOutcome) :=
  match checkWritable s.heap v.target key with
  | .error e => ⟨.error e, s, []⟩
  | .ok () =>
    match check v.options.catalogue s.heap (v.slotSchema key) value with
    | .error m =>
      if v.options.quiet then ⟨.ok .ignored, s, [.writeIgnored key.render m]⟩
      else ⟨.error (.rejected key.render m), s, [.writeRejected key.render m]⟩
    | .ok () =>
      ⟨.ok .committed, { s with heap := s.heap.setSlot v.target key value },
        [.writeCommitted key.render]⟩

end Store

end GuardedData
