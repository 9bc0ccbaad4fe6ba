import GuardedData.Json.Basic
import GuardedData.Mismatch

/-!
# Events

What guarded views, records and the command line report while they work: each
event has a name, a level, fields and a message.
-/

namespace GuardedData

inductive Level where
  | trace
  | debug
  | info
  | warn
  deriving DecidableEq, Repr

def Level.name : Level → String
  | trace => "TRACE"
  | debug => "DEBUG"
  | info => "INFO"
  | warn => "WARN"

/-- Something worth a log entry. -/
inductive Event where
  | wrapped (kind schema : String) (quiet : Bool)
  | viewReused (field : String)
  | viewCreated (field : String)
  | writeIgnored (field : String) (reason : Mismatch)
  | writeRejected (field : String) (reason : Mismatch)
  | writeCommitted (field : String)
  | recordInvalid (reason : Mismatch)
  | checkBegun (schemaPath expected : String)
  | documentValid
  | documentInvalid (reason : Mismatch)
  | loggerPresent
  deriving DecidableEq, Repr

namespace Event

def name : Event → String
  | wrapped .. => "GUARD_WRAP"
  | viewReused _ => "GUARD_VIEW_CACHED"
  | viewCreated _ => "GUARD_VIEW_CREATED"
  | writeIgnored .. => "GUARD_WRITE_IGNORED"
  | writeRejected .. => "GUARD_WRITE_REJECTED"
  | writeCommitted _ => "GUARD_WRITE_COMMITTED"
  | recordInvalid _ => "RECORD_INPUT_INVALID"
  | checkBegun .. => "CHECK_BEGIN"
  | documentValid => "CHECK_COMPLETE"
  | documentInvalid _ => "CHECK_COMPLETE"
  | loggerPresent => "LOG_SUBSCRIBER_PRESENT"

def level : Event → Level
  | wrapped .. => .debug
  | viewReused _ => .trace
  | viewCreated _ => .trace
  | writeIgnored .. => .debug
  | writeRejected .. => .warn
  | writeCommitted _ => .trace
  | recordInvalid _ => .warn
  | checkBegun .. => .debug
  | documentValid => .info
  | documentInvalid _ => .info
  | loggerPresent => .debug

def fields : Event → Keyed Json
  | wrapped kind schema quiet =>
    [("kind", .string kind), ("schema", .string schema), ("quiet", .bool quiet)]
  | viewReused field => [("field", .string field)]
  | viewCreated field => [("field", .string field)]
  | writeIgnored field m =>
    [("field", .string field), ("code", .string m.code), ("reason", .string m.message)]
  | writeRejected field m =>
    [("field", .string field), ("code", .string m.code), ("reason", .string m.message)]
  | writeCommitted field => [("field", .string field)]
  | recordInvalid m =>
    [("code", .string m.code), ("path", .string m.location), ("reason", .string m.message)]
  | checkBegun schemaPath expected =>
    [("schema", .string schemaPath), ("expected", .string expected)]
  | documentValid => [("valid", .bool true)]
  | documentInvalid m =>
    [("valid", .bool false), ("code", .string m.code), ("path", .string m.location)]
  | loggerPresent => []

def message : Event → String
  | wrapped .. => "wrapping value"
  | viewReused _ => "reusing nested view"
  | viewCreated _ => "created nested view"
  | writeIgnored .. => "write ignored"
  | writeRejected .. => "write rejected"
  | writeCommitted _ => "write committed"
  | recordInvalid _ => "building record from invalid input"
  | checkBegun .. => "checking document"
  | documentValid => "document valid"
  | documentInvalid _ => "document invalid"
  | loggerPresent => "keeping existing subscriber"

/-- The log entry of an event. -/
def toJson (e : Event) : Json :=
  .object ([("level", .string e.level.name), ("event", .string e.name)] ++ e.fields
    ++ [("message", .string e.message)])

end Event

end GuardedData
