import GuardedData.Proofs.Check.Places

/-!
# The first failure

`locations h s v` walks a schema and a value together and lists the places in
document order, a place before what lies inside it. `Rejects` says what each
kind of node refuses and how it reports that; a union refuses a value only if
every branch has a place that does. `Agrees` ties the answer of a check to a
list of places: all of them accept, or the mismatch describes the first one
that does not. It is proved along the schema (`agrees_check`), and the list is
that of all places at the ends of paths (`mem_locations_iff`).
-/

namespace GuardedData

/-- A place inside a value: the steps to it, its node of the schema, and its value. -/
structure Location where
  path : Path
  node : Schema
  value : Value

/-- The place seen from the value that has the walk's start under `st`. -/
def Location.under (l : Location) (st : PathStep) : Location := { l with path := st :: l.path }

/-- The places inside elements, from index `i` on. -/
def elementLocations (walk : Value → List Location) : Nat → List Value → List Location
  | _, [] => []
  | i, v :: rest =>
    (walk v).map (Location.under · (.index i)) ++ elementLocations walk (i + 1) rest

mutual

/-- The places inside a value, in document order. -/
def locations (h : Heap) : Schema → Value → List Location
  | .array items, v =>
    ⟨[], .array items, v⟩ ::
      match v with
      | .array r => elementLocations (locations h items) 0 (h.array r)
      | _ => []
  | .object fields, v =>
    ⟨[], .object fields, v⟩ ::
      if v.isUndefined || v.isNull then [] else fieldLocations h fields v
  | .nullable inner, v =>
    if v.isUndefined || v.isNull then [⟨[], .nullable inner, v⟩] else locations h inner v
  | .optional inner, v =>
    if v.isUndefined then [⟨[], .optional inner, v⟩] else locations h inner v
  | s, v => [⟨[], s, v⟩]

def fieldLocations (h : Heap) : List (String × Schema) → Value → List Location
  | [], _ => []
  | (key, s) :: rest, v =>
    (locations h s (h.field v key)).map (Location.under · (.field key)) ++
      fieldLocations h rest v

end

mutual

/-- The node refuses the value itself, for a reason and with an expected shape. -/
inductive Rejects (c : Catalogue) (h : Heap) : Schema → Value → Reason → String → Prop where
  | undefined {v : Value} : v.isUndefined = false → Rejects c h .undefined v .absence "undefined"
  | null {v : Value} : v.isNull = false → Rejects c h .null v .kind "null"
  | tag {name : String} {v : Value} : c.accepts? h name v ≠ some true →
      Rejects c h (.tag name) v .kind name
  | literal {l : Literal} {v : Value} : l.kind ≠ v.kind →
      Rejects c h (.literal l) v .kind l.kind.name
  | array {items : Schema} {v : Value} : v.kind ≠ .array →
      Rejects c h (.array items) v .shape ("array<" ++ items.describe ++ ">")
  | object {fields : List (String × Schema)} {v : Value} : v.isUndefined ∨ v.isNull →
      Rejects c h (.object fields) v .shape "object"
  | nullable {inner : Schema} {v : Value} : v.isUndefined →
      Rejects c h (.nullable inner) v .absence inner.describe
  | union {branches : List Schema} {v : Value} : branches ≠ [] →
      (∀ b ∈ branches, Fails c h b v) →
      Rejects c h (.union branches) v .unionExhausted
        (", ".intercalate (branches.map Schema.describe))
  | emptyUnion {v : Value} : Rejects c h (.union []) v .unionExhausted "union<>"
  | never {v : Value} : Rejects c h .never v .never "never"

/-- A place inside the value is refused by its node. -/
inductive Fails (c : Catalogue) (h : Heap) : Schema → Value → Prop where
  | within {s : Schema} {v : Value} {l : Location} {reason : Reason} {expected : String} :
      l ∈ locations h s v → Rejects c h l.node l.value reason expected → Fails c h s v

end

namespace Location

def Rejected (c : Catalogue) (h : Heap) (l : Location) : Prop :=
  ∃ reason expected, Rejects c h l.node l.value reason expected

/-- The mismatch describes the place. -/
structure Describes (c : Catalogue) (h : Heap) (l : Location) (m : Mismatch) : Prop where
  rejects : Rejects c h l.node l.value m.reason m.expected
  actual : m.actual = l.value.kindName
  path : m.path = l.path
  location : m.location = l.path.render

end Location

/-- The mismatch describes the first place of the list that is refused. -/
def FirstRejected (c : Catalogue) (h : Heap) (ls : List Location) (m : Mismatch) : Prop :=
  ∃ before l after, ls = before ++ l :: after ∧ (∀ b ∈ before, ¬ b.Rejected c h) ∧
    l.Describes c h m

/-- The answer of a check is that of the places. -/
def Agrees (c : Catalogue) (h : Heap) (ls : List Location) : Except Mismatch Unit → Prop
  | .ok () => ∀ l ∈ ls, ¬ l.Rejected c h
  | .error m => FirstRejected c h ls m

section
variable {c : Catalogue} {h : Heap} {s : Schema} {v : Value} {ls ls' : List Location}
  {m : Mismatch}

/-! ## Lists of places -/

theorem agrees_nil : Agrees c h [] (.ok ()) := fun _ hl => absurd hl List.not_mem_nil

theorem FirstRejected.append (hm : FirstRejected c h ls m) (ls' : List Location) :
    FirstRejected c h (ls ++ ls') m := by
  obtain ⟨before, l, after, rfl, hb, hl⟩ := hm
  exact ⟨before, l, after ++ ls', by simp, hb, hl⟩

/-- After places that accept, the rest of a list decides. -/
theorem Agrees.append {r : Except Mismatch Unit} (hls : ∀ l ∈ ls, ¬ l.Rejected c h)
    (hr : Agrees c h ls' r) : Agrees c h (ls ++ ls') r := by
  cases r with
  | ok u =>
    intro l hl
    rcases List.mem_append.mp hl with hl | hl
    · exact hls l hl
    · exact hr l hl
  | error m =>
    obtain ⟨before, l, after, rfl, hb, hd⟩ := hr
    refine ⟨ls ++ before, l, after, by simp, fun b hb' => ?_, hd⟩
    rcases List.mem_append.mp hb' with hb' | hb'
    · exact hls b hb'
    · exact hb b hb'

theorem Agrees.cons {l : Location} {r : Except Mismatch Unit} (hl : ¬ l.Rejected c h)
    (hr : Agrees c h ls r) : Agrees c h (l :: ls) r := by
  have one : ∀ b ∈ [l], ¬ b.Rejected c h := by simpa using hl
  exact Agrees.append one hr

/-- Seen from further out, the places and the mismatch have one more step. -/
theorem FirstRejected.under (hm : FirstRejected c h ls m) (st : PathStep) :
    FirstRejected c h (ls.map (Location.under · st)) (m.under st) := by
  obtain ⟨before, l, after, rfl, hb, hd⟩ := hm
  refine ⟨before.map (Location.under · st), l.under st, after.map (Location.under · st),
    by simp, ?_, hd.rejects, hd.actual, congrArg (st :: ·) hd.path, ?_⟩
  · simpa [Location.Rejected, Location.under] using hb
  · rw [Mismatch.location, Mismatch.under, hd.path]
    rfl

theorem not_rejected_under (hls : ∀ l ∈ ls, ¬ l.Rejected c h) (st : PathStep) :
    ∀ l ∈ ls.map (Location.under · st), ¬ l.Rejected c h := by
  simpa [Location.Rejected, Location.under] using hls

theorem agrees_elements {check : Value → Except Mismatch Unit} {walk : Value → List Location}
    {items : List Value} (ih : ∀ x ∈ items, Agrees c h (walk x) (check x)) (i : Nat) :
    Agrees c h (elementLocations walk i items) (checkElements check i items) := by
  induction items generalizing i with
  | nil => exact agrees_nil
  | cons x rest ihr =>
    obtain ⟨hx, hrest⟩ := List.forall_mem_cons.mp ih
    rw [elementLocations, checkElements]
    cases hc : check x with
    | error m =>
      rw [hc] at hx
      exact FirstRejected.append (FirstRejected.under hx (.index i)) _
    | ok u =>
      rw [hc] at hx
      exact Agrees.append (not_rejected_under hx (.index i)) (ihr hrest (i + 1))

theorem agrees_fields {fields : List (String × Schema)}
    (ih : ∀ k s, (k, s) ∈ fields →
      Agrees c h (locations h s (h.field v k)) (check c h s (h.field v k))) :
    Agrees c h (fieldLocations h fields v) (checkFields c h fields v) := by
  induction fields with
  | nil => exact agrees_nil
  | cons p rest ihr =>
    obtain ⟨key, s⟩ := p
    have hs := ih key s List.mem_cons_self
    have hrest := ihr fun k s hm => ih k s (List.mem_cons_of_mem _ hm)
    rw [fieldLocations, checkFields]
    cases hc : check c h s (h.field v key) with
    | error m =>
      rw [hc] at hs
      exact FirstRejected.append (FirstRejected.under hs (.field key)) _
    | ok u =>
      rw [hc] at hs
      exact Agrees.append (not_rejected_under hs (.field key)) hrest

/-! ## Single places -/

theorem describeBranches_eq (branches : List Schema) :
    Schema.describeBranches branches = branches.map Schema.describe := by
  induction branches with
  | nil => rfl
  | cons s rest ih => rw [Schema.describeBranches, ih, List.map_cons]

/-- Where the walk's start refuses, nothing else counts. -/
theorem agrees_of_rejects {n : Schema} {reason : Reason} {expected : String}
    (hr : Rejects c h n v reason expected) :
    Agrees c h (⟨[], n, v⟩ :: ls) (.error (.atRoot reason expected v.kindName)) :=
  ⟨[], _, ls, rfl, fun _ hb => absurd hb List.not_mem_nil, hr, rfl, rfl, rfl⟩

theorem agrees_of_accepts {n : Schema}
    (ha : ∀ reason expected, ¬ Rejects c h n v reason expected) :
    Agrees c h [⟨[], n, v⟩] (.ok ()) := by
  intro l hl
  obtain rfl := List.mem_singleton.mp hl
  rintro ⟨reason, expected, hr⟩
  exact ha reason expected hr

/-- A place on its own agrees with a test that fails exactly where the node refuses. -/
theorem agrees_require {n : Schema} {b : Bool} {reason : Reason} {expected : String}
    (hr : b = false → Rejects c h n v reason expected)
    (ha : b = true → ∀ reason expected, ¬ Rejects c h n v reason expected) :
    Agrees c h [⟨[], n, v⟩] (require b (.atRoot reason expected v.kindName)) := by
  cases b with
  | false => exact agrees_of_rejects (hr rfl)
  | true => exact agrees_of_accepts (ha rfl)

/-- A union refuses what every branch has a refused place for. -/
theorem agrees_union {branches : List Schema}
    (ih : ∀ b ∈ branches, Agrees c h (locations h b v) (check c h b v)) :
    Agrees c h [⟨[], .union branches, v⟩] (check c h (.union branches) v) := by
  have fails : ∀ b ∈ branches, check c h b v ≠ .ok () → Fails c h b v := by
    intro b hb hc
    have hb := ih b hb
    cases hr : check c h b v with
    | ok u => exact absurd hr hc
    | error m =>
      rw [hr] at hb
      obtain ⟨before, l, after, e, _, hd⟩ := hb
      exact .within (by simp [e]) hd.rejects
  have accepts : ∀ b ∈ branches, check c h b v = .ok () → ¬ Fails c h b v := by
    rintro b hb hc ⟨hl, hr⟩
    have hb := ih b hb
    rw [hc] at hb
    exact hb _ hl ⟨_, _, hr⟩
  rw [check]
  refine agrees_require (fun hb => ?_) fun hb reason expected hr => ?_
  · have all : ∀ b ∈ branches, Fails c h b v := by
      intro b hm
      refine fails b hm fun hc => ?_
      rw [acceptsSome_iff.mpr ⟨b, hm, hc⟩] at hb
      cases hb
    cases branches with
    | nil => exact .emptyUnion
    | cons b rest =>
      rw [Schema.describe, describeBranches_eq]
      exact .union (List.cons_ne_nil _ _) all
  · obtain ⟨b, hm, hc⟩ := acceptsSome_iff.mp hb
    cases hr with
    | union _ hall => exact accepts b hm hc (hall b hm)
    | emptyUnion => cases hm

theorem agrees_array {items : Schema}
    (ih : ∀ x, Agrees c h (locations h items x) (check c h items x)) :
    Agrees c h (locations h (.array items) v) (check c h (.array items) v) := by
  cases v with
  | array r =>
    rw [locations, check]
    refine Agrees.cons ?_ (agrees_elements (fun x _ => ih x) 0)
    rintro ⟨_, _, hr⟩
    cases hr with
    | array hk => exact hk rfl
  | _ => exact agrees_of_rejects (.array fun hk => by cases hk)

theorem agrees_object {fields : List (String × Schema)}
    (ih : ∀ k s, (k, s) ∈ fields → ∀ x, Agrees c h (locations h s x) (check c h s x)) :
    Agrees c h (locations h (.object fields) v) (check c h (.object fields) v) := by
  rw [locations, check]
  split
  · next hv => exact agrees_of_rejects (.object (by simpa using hv))
  · next hv =>
    refine Agrees.cons ?_ (agrees_fields fun k s hm => ih k s hm _)
    rintro ⟨_, _, hr⟩
    cases hr with
    | object hv' => exact hv (by simpa using hv')

/-- What a check answers is what the places say. -/
theorem agrees_check (s : Schema) (v : Value) :
    Agrees c h (locations h s v) (check c h s v) := by
  induction s generalizing v with
  | undefined =>
    refine agrees_require .undefined fun hb _ _ hr => ?_
    cases hr with
    | undefined hv => simp [hv] at hb
  | null =>
    refine agrees_require .null fun hb _ _ hr => ?_
    cases hr with
    | null hv => simp [hv] at hb
  | tag name =>
    refine agrees_require (fun hb => .tag (by simpa using hb)) fun hb _ _ hr => ?_
    cases hr with
    | tag hne => exact hne (by simpa using hb)
  | literal l =>
    refine agrees_require (fun hb => .literal (by simpa [Literal.sameKind] using hb))
      fun hb _ _ hr => ?_
    cases hr with
    | literal hne => exact hne (by simpa [Literal.sameKind] using hb)
  | array items ih => exact agrees_array ih
  | object fields ih => exact agrees_object ih
  | nullable inner ih =>
    rw [locations, check]
    cases hu : v.isUndefined <;> cases hn : v.isNull
    · exact ih v
    · refine agrees_of_accepts fun _ _ hr => ?_
      cases hr with
      | nullable hv => simp [hu] at hv
    · have hv : v = .undefined := by cases v <;> simp_all [Value.isUndefined]
      subst hv
      exact agrees_of_rejects (.nullable rfl)
    · cases v <;> simp_all [Value.isUndefined, Value.isNull]
  | optional inner ih =>
    rw [locations, check]
    split
    · exact agrees_of_accepts fun _ _ hr => by cases hr
    · exact ih v
  | union branches ih => exact agrees_union fun b hb => ih b hb v
  | any => exact agrees_of_accepts fun _ _ hr => by cases hr
  | unknown => exact agrees_of_accepts fun _ _ hr => by cases hr
  | never => exact agrees_of_rejects .never

theorem firstRejected_of_check (e : check c h s v = .error m) :
    FirstRejected c h (locations h s v) m := by
  have agrees : Agrees c h (locations h s v) (check c h s v) := agrees_check s v
  rw [e] at agrees
  exact agrees

/-! ## The walk visits every place -/

theorem mem_elementLocations {walk : Value → List Location} {items : List Value} {l : Location}
    {i : Nat} : l ∈ elementLocations walk i items ↔
      ∃ j x l', items[j]? = some x ∧ l' ∈ walk x ∧ l = l'.under (.index (i + j)) := by
  induction items generalizing i with
  | nil => simp [elementLocations]
  | cons x rest ih =>
    rw [elementLocations, List.mem_append, ih]
    constructor
    · rintro (hl | ⟨j, y, l', hy, hl', rfl⟩)
      · obtain ⟨l', hl', rfl⟩ := List.mem_map.mp hl
        exact ⟨0, x, l', rfl, hl', rfl⟩
      · exact ⟨j + 1, y, l', hy, hl', by rw [show i + 1 + j = i + (j + 1) by omega]⟩
    · rintro ⟨j, y, l', hy, hl', rfl⟩
      cases j with
      | zero =>
        obtain rfl := Option.some.inj hy
        exact .inl (List.mem_map.mpr ⟨l', hl', rfl⟩)
      | succ j => exact .inr ⟨j, y, l', hy, hl', by rw [show i + 1 + j = i + (j + 1) by omega]⟩

theorem mem_fieldLocations {fields : List (String × Schema)} {l : Location} :
    l ∈ fieldLocations h fields v ↔ ∃ k s l', (k, s) ∈ fields ∧
      l' ∈ locations h s (h.field v k) ∧ l = l'.under (.field k) := by
  induction fields with
  | nil => simp [fieldLocations]
  | cons p rest ih =>
    obtain ⟨key, s⟩ := p
    rw [fieldLocations, List.mem_append, ih]
    constructor
    · rintro (hl | ⟨k, s', l', hm, hl', e⟩)
      · obtain ⟨l', hl', rfl⟩ := List.mem_map.mp hl
        exact ⟨key, s, l', List.mem_cons_self, hl', rfl⟩
      · exact ⟨k, s', l', List.mem_cons_of_mem _ hm, hl', e⟩
    · rintro ⟨k, s', l', hm, hl', rfl⟩
      rcases List.mem_cons.mp hm with e | hm
      · obtain ⟨rfl, rfl⟩ := Prod.mk.inj e
        exact .inl (List.mem_map.mpr ⟨l', hl', rfl⟩)
      · exact .inr ⟨k, s', l', hm, hl', rfl⟩

theorem place_of_mem_locations {l : Location} (hl : l ∈ locations h s v) :
    Place h s v l.path l.node l.value := by
  induction s generalizing v l with
  | array items ih =>
    rcases List.mem_cons.mp hl with rfl | hl
    · exact .here rfl
    · cases v with
      | array r =>
        obtain ⟨j, x, l', hx, hl', rfl⟩ := mem_elementLocations.mp hl
        rw [Nat.zero_add]
        exact .element hx (ih hl')
      | _ => cases hl
  | object fields ih =>
    rcases List.mem_cons.mp hl with rfl | hl
    · exact .here rfl
    · split at hl
      · cases hl
      · next hv =>
        obtain ⟨hu, hn⟩ : v.isUndefined = false ∧ v.isNull = false := by simpa using hv
        obtain ⟨k, s, l', hm, hl', rfl⟩ := mem_fieldLocations.mp hl
        exact .field hu hn hm (ih k s hm hl')
  | nullable inner ih =>
    rw [locations] at hl
    split at hl
    · next hv =>
      obtain rfl := List.mem_singleton.mp hl
      exact .here (by simp [Schema.opens, hv])
    · next hv => exact .modifier (by simp [Schema.opens, hv]) (ih hl)
  | optional inner ih =>
    rw [locations] at hl
    split at hl
    · next hv =>
      obtain rfl := List.mem_singleton.mp hl
      exact .here (by simp [Schema.opens, hv])
    · next hv => exact .modifier (by simp [Schema.opens, hv]) (ih hl)
  | _ =>
    obtain rfl := List.mem_singleton.mp hl
    exact .here rfl

theorem locations_of_opens {inner : Schema} (e : s.opens v = some inner) :
    locations h s v = locations h inner v := by
  cases s with
  | nullable n | optional n =>
    simp only [Schema.opens] at e
    rw [locations]
    split at e
    · cases e
    · next hv => rw [if_neg hv, Option.some.inj e]
  | _ => cases e

theorem here_mem_locations (e : s.opens v = none) : ⟨[], s, v⟩ ∈ locations h s v := by
  cases s with
  | nullable n | optional n =>
    simp only [Schema.opens] at e
    rw [locations]
    split at e
    · next hv => rw [if_pos hv]; exact List.mem_singleton.mpr rfl
    · cases e
  | _ => exact List.mem_cons_self

theorem mem_locations_of_place {p : Path} {n : Schema} {w : Value} (hp : Place h s v p n w) :
    ⟨p, n, w⟩ ∈ locations h s v := by
  induction hp with
  | here e => exact here_mem_locations e
  | modifier e _ ih => rw [locations_of_opens e]; exact ih
  | @field fields k s n v w p hu hn hm _ ih =>
    rw [locations, hu, hn]
    exact List.mem_cons_of_mem _ (mem_fieldLocations.mpr ⟨k, s, _, hm, ih, rfl⟩)
  | @element items n r i x w p hx _ ih =>
    refine List.mem_cons_of_mem _ (mem_elementLocations.mpr ⟨i, x, _, hx, ih, ?_⟩)
    rw [Nat.zero_add]
    rfl

/-- The places of the list are those at the ends of paths. -/
theorem mem_locations_iff {l : Location} :
    l ∈ locations h s v ↔ Place h s v l.path l.node l.value :=
  ⟨place_of_mem_locations, mem_locations_of_place⟩

/-! ## The first place -/

theorem Rejects.unique {n : Schema} {reason reason' : Reason} {expected expected' : String}
    (h1 : Rejects c h n v reason expected) (h2 : Rejects c h n v reason' expected') :
    reason = reason' ∧ expected = expected' := by
  cases h1 <;> cases h2 <;> first | exact ⟨rfl, rfl⟩ | contradiction

theorem Location.Describes.unique {l : Location} {m' : Mismatch} (h1 : l.Describes c h m)
    (h2 : l.Describes c h m') : m = m' := by
  obtain ⟨hreason, hexpected⟩ := h1.rejects.unique h2.rejects
  have hactual : m.actual = m'.actual := h1.actual.trans h2.actual.symm
  have hpath : m.path = m'.path := h1.path.trans h2.path.symm
  cases m
  cases m'
  simp_all

theorem firstRejected_cons {l : Location} : FirstRejected c h (l :: ls) m ↔
    l.Describes c h m ∨ (¬ l.Rejected c h ∧ FirstRejected c h ls m) := by
  constructor
  · rintro ⟨before, l', after, e, hb, hd⟩
    cases before with
    | nil =>
      obtain ⟨rfl, rfl⟩ := List.cons.inj e
      exact .inl hd
    | cons b before =>
      obtain ⟨rfl, rfl⟩ := List.cons.inj e
      obtain ⟨hl, hb⟩ := List.forall_mem_cons.mp hb
      exact .inr ⟨hl, before, l', after, rfl, hb, hd⟩
  · rintro (hd | ⟨hl, before, l', after, rfl, hb, hd⟩)
    · exact ⟨[], l, ls, rfl, by simp, hd⟩
    · exact ⟨l :: before, l', after, rfl, List.forall_mem_cons.mpr ⟨hl, hb⟩, hd⟩

theorem FirstRejected.unique {m' : Mismatch} (h1 : FirstRejected c h ls m)
    (h2 : FirstRejected c h ls m') : m = m' := by
  induction ls with
  | nil =>
    obtain ⟨before, _, _, e, _⟩ := h1
    cases before <;> cases e
  | cons l ls ih =>
    rcases firstRejected_cons.mp h1 with h1 | ⟨hl, h1⟩ <;>
      rcases firstRejected_cons.mp h2 with h2 | ⟨hl', h2⟩
    · exact h1.unique h2
    · exact absurd ⟨_, _, h1.rejects⟩ hl'
    · exact absurd ⟨_, _, h2.rejects⟩ hl
    · exact ih h1 h2

theorem FirstRejected.exists_rejected (hm : FirstRejected c h ls m) :
    ∃ l ∈ ls, l.Rejected c h := by
  obtain ⟨before, l, after, rfl, _, hd⟩ := hm
  exact ⟨l, by simp, _, _, hd.rejects⟩

/-- A check succeeds exactly when every place accepts, and it answers with a mismatch exactly
when the mismatch describes the first place in document order that does not. -/
theorem check_eq_first_rejected (c : Catalogue) (h : Heap) (s : Schema) (v : Value) :
    (check c h s v = .ok () ↔ ∀ l ∈ locations h s v, ¬ l.Rejected c h) ∧
      ∀ m, check c h s v = .error m ↔ FirstRejected c h (locations h s v) m := by
  have agrees : Agrees c h (locations h s v) (check c h s v) := agrees_check s v
  cases hr : check c h s v with
  | ok u =>
    rw [hr] at agrees
    refine ⟨iff_of_true rfl agrees, fun m => iff_of_false nofun fun hm => ?_⟩
    obtain ⟨l, hl, hrej⟩ := hm.exists_rejected
    exact agrees l hl hrej
  | error m =>
    rw [hr] at agrees
    have first : FirstRejected c h (locations h s v) m := agrees
    constructor
    · refine iff_of_false nofun fun hall => ?_
      obtain ⟨l, hl, hrej⟩ := first.exists_rejected
      exact hall l hl hrej
    · intro m'
      rw [Except.error.injEq]
      exact ⟨fun e => e ▸ first, fun hm => first.unique hm⟩

end

end GuardedData
