import GuardedData.Mismatch
import GuardedData.Proofs.Keyed
import GuardedData.Schema.Basic

/-!
# The nodes of a schema

`Schema.induct` is induction over the nodes of a schema, `Within n s` says that
`n` is one of them. `inner` is the schema of the place under one step and
`descend` that of the place at the end of a path.
-/

namespace GuardedData

namespace Schema

/-- Induction over schemas, with the hypothesis for every field and every branch. -/
@[elab_as_elim, induction_eliminator]
theorem induct {motive : Schema → Prop} (undefined : motive .undefined) (null : motive .null)
    (tag : ∀ name, motive (.tag name)) (literal : ∀ value, motive (.literal value))
    (array : ∀ items, motive items → motive (.array items))
    (object : ∀ fields, (∀ k s, (k, s) ∈ fields → motive s) → motive (.object fields))
    (nullable : ∀ inner, motive inner → motive (.nullable inner))
    (optional : ∀ inner, motive inner → motive (.optional inner))
    (union : ∀ branches, (∀ s, s ∈ branches → motive s) → motive (.union branches))
    (any : motive .any) (unknown : motive .unknown) (never : motive .never) :
    ∀ s, motive s
  | .undefined => undefined
  | .null => null
  | .tag name => tag name
  | .literal value => literal value
  | .array items => array items (induct undefined null tag literal array object nullable optional
      union any unknown never items)
  | .object fields => object fields fun _ s hm =>
    have := List.sizeOf_lt_of_mem hm
    induct undefined null tag literal array object nullable optional union any unknown never s
  | .nullable inner => nullable inner (induct undefined null tag literal array object nullable
      optional union any unknown never inner)
  | .optional inner => optional inner (induct undefined null tag literal array object nullable
      optional union any unknown never inner)
  | .union branches => union branches fun s hm =>
    have := List.sizeOf_lt_of_mem hm
    induct undefined null tag literal array object nullable optional union any unknown never s
  | .any => any
  | .unknown => unknown
  | .never => never
termination_by s => sizeOf s
decreasing_by
  all_goals simp_wf
  all_goals try simp only [Prod.mk.sizeOf_spec] at this
  all_goals omega

/-- `Within n s`: the schema `n` is a node of `s`. -/
inductive Within (n : Schema) : Schema → Prop where
  | refl : Within n n
  | array {items : Schema} : Within n items → Within n (.array items)
  | field {fields : List (String × Schema)} {k : String} {s : Schema} :
      (k, s) ∈ fields → Within n s → Within n (.object fields)
  | nullable {inner : Schema} : Within n inner → Within n (.nullable inner)
  | optional {inner : Schema} : Within n inner → Within n (.optional inner)
  | branch {branches : List Schema} {s : Schema} :
      s ∈ branches → Within n s → Within n (.union branches)

/-- No object declares a field twice. -/
def WellFormed (s : Schema) : Prop := ∀ fields, Within (.object fields) s → Keyed.Distinct fields

theorem Within.trans {a b n : Schema} (h1 : Within a b) (h2 : Within b n) : Within a n := by
  induction h2 with
  | refl => exact h1
  | array _ ih => exact .array ih
  | field hm _ ih => exact .field hm ih
  | nullable _ ih => exact .nullable ih
  | optional _ ih => exact .optional ih
  | branch hm _ ih => exact .branch hm ih

theorem WellFormed.of_within {n S : Schema} (hS : S.WellFormed) (hn : Within n S) :
    n.WellFormed :=
  fun fields hf => hS fields (hf.trans hn)

/-- The schema of the place under one step. -/
def inner (s : Schema) : PathStep → Schema
  | .field k => s.fieldSchema k
  | .index _ => s.elementSchema

/-- The schema of the place at the end of a path. -/
def descend (s : Schema) (p : Path) : Schema := p.foldl inner s

@[simp] theorem descend_nil (s : Schema) : s.descend [] = s := rfl

theorem descend_snoc (s : Schema) (p : Path) (st : PathStep) :
    s.descend (p ++ [st]) = (s.descend p).inner st := by
  simp [descend]

theorem inner_nullable (s : Schema) (st : PathStep) : (nullable s).inner st = s.inner st := by
  cases st <;> simp [inner, fieldSchema, elementSchema]

theorem inner_optional (s : Schema) (st : PathStep) : (optional s).inner st = s.inner st := by
  cases st <;> simp [inner, fieldSchema, elementSchema]

theorem inner_array (s : Schema) (i : Nat) : (array s).inner (.index i) = s := by
  simp [inner, elementSchema]

end Schema

theorem Schema.inner_object {fields : List (String × Schema)} {k : String} {s : Schema}
    (hd : Keyed.Distinct fields) (h : (k, s) ∈ fields) : (object fields).inner (.field k) = s := by
  simp [inner, fieldSchema, hd.get?_of_mem h]

end GuardedData
