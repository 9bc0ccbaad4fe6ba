import GuardedData.Catalogue
import GuardedData.Guard.Key
import GuardedData.Heap.Rendering
import GuardedData.Schema.Basic

/-!
# Stores of views

A view stands for an object or an array under the schema of its place. Views
read from one root belong to one session, which keeps a table of the nested
views that are alive, by the address of their targets. A view lives as long as
somebody holds it; the table does not count.
-/

namespace GuardedData

/-- The number of a view. Numbers are never used again. -/
abbrev ViewId := Nat

abbrev SessionId := Nat

/-- What all views of a session share. -/
structure Options where
  /-- A write that does not match is ignored instead of refused. -/
  quiet : Bool
  /-- Resolves tags; a copy of the caller's catalogue. -/
  catalogue : Catalogue

namespace Options

def strict (c : Catalogue) : Options := ⟨false, c⟩

def lenient (c : Catalogue) : Options := ⟨true, c⟩

end Options

/-- A guarded object or array. -/
structure View where
  target : Handle
  schema : Schema
  session : SessionId
  options : Options
  holders : Nat

def View.slotSchema (v : View) (key : Key) : Schema :=
  match v.target with
  | .array _ => v.schema.elementSchema
  | .object _ => v.schema.fieldSchema key.toName

def View.render (v : View) (h : Heap) : String :=
  "GuardedView \x7b schema: " ++ Text.quote v.schema.describe ++ ", value: "
    ++ h.render v.target.toValue ++ ", quiet: " ++ (if v.options.quiet then "true" else "false")
    ++ " \x7d"

/-- The nested views of a session by the addresses of their targets. -/
abbrev ViewTable := Std.ExtTreeMap Nat ViewId

/-- A heap, the views that are alive, and the tables of their sessions. -/
structure Store where
  heap : Heap
  views : Std.ExtTreeMap ViewId View
  tables : Std.ExtTreeMap SessionId ViewTable
  nextView : ViewId
  nextSession : SessionId

namespace Store

def ofHeap (h : Heap) : Store := ⟨h, ∅, ∅, 0, 0⟩

/-- The view of a number, while it is alive. -/
def view? (s : Store) (id : ViewId) : Option View := s.views[id]?

def table (s : Store) (session : SessionId) : ViewTable := s.tables[session]?.getD ∅

def isAlive (s : Store) (id : ViewId) : Bool := s.views.contains id

/-- The live nested view of a target in a session. What lay at the target's address before
does not count. -/
def lookup? (s : Store) (session : SessionId) (target : Handle) : Option ViewId :=
  match (s.table session)[s.heap.address target.ref]? with
  | none => none
  | some id =>
    match s.view? id with
    | none => none
    | some v => if v.target = target then some id else none

def addRoot (s : Store) (v : View) : ViewId × Store :=
  (s.nextView,
    { s with views := s.views.insert s.nextView v, nextView := s.nextView + 1 })

/-- Adds a nested view with one holder and enters it into the table of its session, from
which the entries of dead views are taken out. -/
def addNested (s : Store) (v : View) : ViewId × Store :=
  let live := (s.table v.session).filter fun _ id => s.isAlive id
  (s.nextView,
    { s with
      views := s.views.insert s.nextView v
      tables := s.tables.insert v.session (live.insert (s.heap.address v.target.ref) s.nextView)
      nextView := s.nextView + 1 })

def hold (s : Store) (id : ViewId) : Store :=
  match s.view? id with
  | none => s
  | some v => { s with views := s.views.insert id { v with holders := v.holders + 1 } }

/-- One holder less; without holders the view is gone. -/
def release (s : Store) (id : ViewId) : Store :=
  match s.view? id with
  | none => s
  | some v =>
    if v.holders ≤ 1 then { s with views := s.views.erase id }
    else { s with views := s.views.insert id { v with holders := v.holders - 1 } }

def liveViews (s : Store) (session : SessionId) : Nat :=
  ((s.table session).toList.filter fun e => s.isAlive e.2).length

end Store

end GuardedData
