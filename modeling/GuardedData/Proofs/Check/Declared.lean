import Mathlib.Data.List.Induction
import Mathlib.Logic.Relation
import GuardedData.Proofs.Check.Acceptance
import GuardedData.Schema.Kind

/-!
# What a check depends on

`s.Leads p n` says that a schema can follow the steps `p`, through declared
fields and elements, and comes to the node `n`: modifiers are looked through,
and a union leads on in each of its branches. `h.readPath v p` is what reading
along the steps gives, absence where there is nothing. Values are `Alike` for a
schema if they have the same kind wherever it leads, and the same length where
it comes to an array node. The check of a value gives for every value alike the
same answer (`check_of_alike`). Data stays alike under edits that the schema
does not show (`HiddenEdit`).
-/

namespace GuardedData

/-! ## Reading along steps -/

namespace Heap

/-- The field or the element under one step. -/
def readStep (h : Heap) (v : Value) : PathStep → Value
  | .field k => h.field v k
  | .index i => h.index v i

/-- What reading step by step gives. -/
def readPath (h : Heap) (v : Value) (p : Path) : Value := p.foldl h.readStep v

section
variable {h h' : Heap} {v w : Value} {r : Ref} {t : Handle} {st : PathStep} {p q : Path}

theorem readPath_append (h : Heap) (v : Value) (p q : Path) :
    h.readPath v (p ++ q) = h.readPath (h.readPath v p) q := List.foldl_append

theorem readPath_snoc (h : Heap) (v : Value) (p : Path) (st : PathStep) :
    h.readPath v (p ++ [st]) = h.readStep (h.readPath v p) st := readPath_append h v p [st]

theorem readStep_of_scalar (hv : v.handle? = none) (st : PathStep) :
    h.readStep v st = .undefined := by
  cases st <;> cases v <;> first | rfl | cases hv

/-- A handle is read where it holds something under the step. -/
theorem readStep_toValue (h : Heap) (t : Handle) (st : PathStep) :
    h.readStep t.toValue st = (h.child? t st).getD .undefined := by
  cases t <;> cases st <;> rfl

theorem readStep_of_sameCell (hs : ∀ t, v = t.toValue → h.SameCell h' t) (st : PathStep) :
    h'.readStep v st = h.readStep v st := by
  cases hv : v.handle? with
  | none => rw [readStep_of_scalar hv, readStep_of_scalar hv]
  | some t =>
    obtain rfl := Value.handle?_eq_some_iff.mp hv
    rw [readStep_toValue, readStep_toValue, (hs t rfl).child?]

/-- An object with other fields is read as before where they read as before. -/
theorem readStep_setObject {props : Properties}
    (hk : ∀ k, v = .object r → st = .field k →
      props[k]?.getD .undefined = (h.object r)[k]?.getD .undefined) :
    (h.setObject r props).readStep v st = h.readStep v st := by
  by_cases hv : v = .object r
  · subst hv
    cases st with
    | field k =>
      show ((h.setObject r props).object r)[k]?.getD .undefined = _
      rw [object_setObject_self]
      exact hk k rfl rfl
    | index i => rfl
  · refine readStep_of_sameCell (fun t ht => ?_) st
    cases t with
    | object s => exact object_setObject_ne h (fun e => hv (ht.trans (congrArg _ e.symm))) props
    | array s => rfl

/-- An array with other elements is read as before where they are. -/
theorem readStep_setArray {items : List Value}
    (hi : ∀ i, v = .array r → st = .index i →
      items[i]?.getD .undefined = (h.array r)[i]?.getD .undefined) :
    (h.setArray r items).readStep v st = h.readStep v st := by
  by_cases hv : v = .array r
  · subst hv
    cases st with
    | field k => rfl
    | index i =>
      show ((h.setArray r items).array r)[i]?.getD .undefined = _
      rw [array_setArray_self]
      exact hi i rfl rfl
  · refine readStep_of_sameCell (fun t ht => ?_) st
    cases t with
    | object s => rfl
    | array s => exact array_setArray_ne h (fun e => hv (ht.trans (congrArg _ e.symm))) items

end

end Heap

/-! ## Where a schema leads -/

namespace Schema

/-- The schema can follow the steps, and comes to a node. -/
inductive Leads : Schema → Path → Schema → Prop where
  | here (s : Schema) : Leads s [] s
  | nullable {inner n : Schema} {p : Path} : Leads inner p n → Leads (.nullable inner) p n
  | optional {inner n : Schema} {p : Path} : Leads inner p n → Leads (.optional inner) p n
  | branch {branches : List Schema} {b n : Schema} {p : Path} : b ∈ branches → Leads b p n →
      Leads (.union branches) p n
  | field {fields : List (String × Schema)} {k : String} {s n : Schema} {p : Path} :
      (k, s) ∈ fields → Leads s p n → Leads (.object fields) (.field k :: p) n
  | element {items n : Schema} {p : Path} (i : Nat) : Leads items p n →
      Leads (.array items) (.index i :: p) n

/-- The node has a place under the step. -/
inductive Offers : Schema → PathStep → Prop where
  | field {fields : List (String × Schema)} {k : String} {s : Schema} : (k, s) ∈ fields →
      Offers (.object fields) (.field k)
  | element {items : Schema} (i : Nat) : Offers (.array items) (.index i)

/-- Where the steps lead, no node of the schema looks inside. -/
def Shut (s : Schema) (p : Path) : Prop :=
  ∀ n, s.Leads p n → n.kind ≠ .array ∧ n.kind ≠ .object

/-- The values have the same kind wherever the schema leads, and the same length where it comes
to an array node. -/
structure Alike (s : Schema) (h : Heap) (v : Value) (h' : Heap) (v' : Value) : Prop where
  kind : ∀ p n, s.Leads p n → (h.readPath v p).kind = (h'.readPath v' p).kind
  length : ∀ p items r r', s.Leads p (.array items) → h.readPath v p = .array r →
    h'.readPath v' p = .array r' → (h.array r).length = (h'.array r').length

section
variable {s n m : Schema} {h h' : Heap} {v v' : Value} {st : PathStep} {p q : Path}

/-- The last step leaves a node that has a place under it. -/
theorem Leads.offers (hl : s.Leads (p ++ [st]) n) : ∃ m, s.Leads p m ∧ m.Offers st := by
  generalize e : p ++ [st] = l at hl
  induction hl generalizing p with
  | here s => simp at e
  | nullable _ ih =>
    obtain ⟨m, hm, ho⟩ := ih e
    exact ⟨m, .nullable hm, ho⟩
  | optional _ ih =>
    obtain ⟨m, hm, ho⟩ := ih e
    exact ⟨m, .optional hm, ho⟩
  | branch hb _ ih =>
    obtain ⟨m, hm, ho⟩ := ih e
    exact ⟨m, .branch hb hm, ho⟩
  | field hk _ ih =>
    cases p with
    | nil =>
      obtain ⟨rfl, -⟩ := List.cons.inj e
      exact ⟨_, .here _, .field hk⟩
    | cons st' p =>
      obtain ⟨rfl, e'⟩ := List.cons.inj e
      obtain ⟨m, hm, ho⟩ := ih e'
      exact ⟨m, .field hk hm, ho⟩
  | element i _ ih =>
    cases p with
    | nil =>
      obtain ⟨rfl, -⟩ := List.cons.inj e
      exact ⟨_, .here _, .element i⟩
    | cons st' p =>
      obtain ⟨rfl, e'⟩ := List.cons.inj e
      obtain ⟨m, hm, ho⟩ := ih e'
      exact ⟨m, .element i hm, ho⟩

theorem Shut.not_leads (hp : s.Shut p) : ¬ s.Leads (p ++ [st]) n := by
  intro hl
  obtain ⟨m, hm, ho⟩ := hl.offers
  obtain ⟨ha, ho'⟩ := hp m hm
  cases ho with
  | field _ => exact ho' rfl
  | element _ => exact ha rfl

/-! ## Alike values by the form of the schema -/

theorem Alike.here (ha : s.Alike h v h' v') : v.kind = v'.kind := ha.kind [] s (.here s)

theorem Alike.mono (ha : s.Alike h v h' v') (hm : ∀ p n, m.Leads p n → s.Leads p n) :
    m.Alike h v h' v' where
  kind p n hp := ha.kind p n (hm p n hp)
  length p items r r' hp := ha.length p items r r' (hm p _ hp)

/-- What is read under a step is alike for a schema that leads on from there. -/
theorem Alike.under (ha : s.Alike h v h' v') (st : PathStep)
    (hm : ∀ p n, m.Leads p n → s.Leads (st :: p) n) :
    m.Alike h (h.readStep v st) h' (h'.readStep v' st) where
  kind p n hp := ha.kind (st :: p) n (hm p n hp)
  length p items r r' hp := ha.length (st :: p) items r r' (hm p _ hp)

end

end Schema

/-! ## Checks of alike values -/

section
variable {c : Catalogue} {h h' : Heap} {s : Schema} {v v' : Value}

theorem check_of_alike (hc : c.KindOnly) (ha : s.Alike h v h' v') :
    check c h s v = check c h' s v' := by
  refine CheckRelation.check (P := fun s v v' => s.Alike h v h' v') ?_ ha
  exact
    { kind := Schema.Alike.here
      accepts := fun ha => hc.accepts? h h' _ ha.here
      nullable := fun ha => ha.mono fun p n hp => .nullable hp
      optional := fun ha => ha.mono fun p n hp => .optional hp
      branch := fun ha hb => ha.mono fun p n hp => .branch hb hp
      field := fun {_ k _ _ _} ha hm => ha.under (.field k) fun p n hp => .field hm hp
      items := fun {items r r'} ha => by
        refine List.forall₂_iff_get.mpr ⟨ha.length [] items r r' (.here _) rfl rfl, ?_⟩
        intro i hi hi'
        have hx := ha.under (m := items) (.index i) fun p n hp => .element i hp
        simp only [Heap.readStep, Heap.index, List.getElem?_eq_getElem hi,
          List.getElem?_eq_getElem hi', Option.getD_some] at hx
        exact hx }

end

/-! ## Edits that a schema does not show -/

namespace Schema

/-- At a place where `v` holds the object, the schema declares the key. -/
def Declares (s : Schema) (h : Heap) (v : Value) (r : Ref) (k : String) : Prop :=
  ∃ p fields n, s.Leads p (.object fields) ∧ h.readPath v p = .object r ∧ (k, n) ∈ fields

/-- One change of the data that the schema does not see from the value. -/
inductive HiddenEdit (s : Schema) (v : Value) (h : Heap) : Heap → Prop where
  /-- An undeclared key gets a value. -/
  | put {r : Ref} {k : String} (x : Value) : ¬ s.Declares h v r k →
      HiddenEdit s v h (h.setObject r ((h.object r).insert k x))
  /-- An undeclared key goes. -/
  | remove {r : Ref} {k : String} : ¬ s.Declares h v r k →
      HiddenEdit s v h (h.setObject r ((h.object r).erase k))
  /-- A key that holds absence goes. -/
  | drop {r : Ref} {k : String} : (h.object r)[k]? = some .undefined →
      HiddenEdit s v h (h.setObject r ((h.object r).erase k))
  /-- What is under a key where the schema is shut gives way to a value of the same kind. -/
  | field {r : Ref} {k : String} {old x : Value} : (h.object r)[k]? = some old →
      x.kind = old.kind → (∀ p, h.readPath v p = .object r → s.Shut (p ++ [.field k])) →
      HiddenEdit s v h (h.setObject r ((h.object r).insert k x))
  /-- So does an element. -/
  | element {r : Ref} {i : Nat} {old x : Value} : (h.array r)[i]? = some old →
      x.kind = old.kind → (∀ p, h.readPath v p = .array r → s.Shut (p ++ [.index i])) →
      HiddenEdit s v h (h.setArray r ((h.array r).set i x))
  /-- An object or array that lies only where the schema is shut gets any contents. -/
  | inside {h' : Heap} (t : Handle) : (∀ p, h.readPath v p = t.toValue → s.Shut p) →
      (∀ u, u ≠ t → h.SameCell h' u) → HiddenEdit s v h h'

section
variable {s n : Schema} {h h' : Heap} {v : Value} {p : Path}

/-- Two heaps show a value alike if, wherever the schema leads, each step reads the same, or
the same kind where the schema is shut. -/
theorem alike_of_readStep
    (hread : ∀ p st n, s.Leads (p ++ [st]) n →
      h'.readStep (h.readPath v p) st = h.readStep (h.readPath v p) st ∨
        (h'.readStep (h.readPath v p) st).kind = (h.readStep (h.readPath v p) st).kind ∧
          s.Shut (p ++ [st]))
    (hlength : ∀ p items r, s.Leads p (.array items) → h.readPath v p = .array r →
      (h'.array r).length = (h.array r).length) :
    s.Alike h' v h v := by
  have same : ∀ p n, s.Leads p n → h'.readPath v p = h.readPath v p ∨
      (h'.readPath v p).kind = (h.readPath v p).kind ∧ s.Shut p := by
    intro p
    -- the steps before the last one are read the same, since the schema leads on from them
    induction p using List.reverseRecOn with
    | nil => exact fun _ _ => .inl rfl
    | append_singleton p st ih =>
      intro n hl
      obtain ⟨m, hm, -⟩ := hl.offers
      rcases ih m hm with e | ⟨-, hshut⟩
      · rw [Heap.readPath_snoc, Heap.readPath_snoc, e]
        exact hread p st n hl
      · exact absurd hl hshut.not_leads
  refine ⟨fun p n hp => ?_, fun p items r r' hp hr hr' => ?_⟩
  · rcases same p n hp with e | ⟨e, -⟩
    · rw [e]
    · exact e
  · rcases same p _ hp with e | ⟨-, hshut⟩
    · obtain rfl := Value.array.inj ((hr.symm.trans e).trans hr')
      exact hlength p items r hp hr'
    · exact absurd rfl (hshut _ hp).1

/-- An object whose declared keys read as before shows alike. -/
theorem alike_setObject {r : Ref} {props : Properties}
    (hk : ∀ k, s.Declares h v r k →
      props[k]?.getD .undefined = (h.object r)[k]?.getD .undefined) :
    s.Alike (h.setObject r props) v h v := by
  refine alike_of_readStep (fun p st n hl => .inl (Heap.readStep_setObject ?_)) fun _ _ _ _ _ => rfl
  rintro k hr rfl
  obtain ⟨m, hm, ho⟩ := hl.offers
  cases ho with
  | field hk' => exact hk k ⟨p, _, _, hm, hr, hk'⟩

/-- What is under a key where the schema is shut may give way to a value of the same kind. -/
theorem alike_insert {r : Ref} {k : String} {old x : Value} (hold : (h.object r)[k]? = some old)
    (hx : x.kind = old.kind)
    (hshut : ∀ p, h.readPath v p = .object r → s.Shut (p ++ [.field k])) :
    s.Alike (h.setObject r ((h.object r).insert k x)) v h v := by
  refine alike_of_readStep (fun p st n hl => ?_) fun _ _ _ _ _ => rfl
  by_cases hr : h.readPath v p = .object r ∧ st = .field k
  · obtain ⟨hr, rfl⟩ := hr
    rw [hr]
    refine .inr ⟨?_, hshut p hr⟩
    simpa [Heap.readStep, Heap.field, hold] using hx
  · refine .inl (Heap.readStep_setObject fun k' hr' hst => ?_)
    have hne : k ≠ k' := fun e => hr ⟨hr', e ▸ hst⟩
    simp [Std.ExtTreeMap.getElem?_insert, hne]

/-- So may an element. -/
theorem alike_set {r : Ref} {i : Nat} {old x : Value} (hold : (h.array r)[i]? = some old)
    (hx : x.kind = old.kind)
    (hshut : ∀ p, h.readPath v p = .array r → s.Shut (p ++ [.index i])) :
    s.Alike (h.setArray r ((h.array r).set i x)) v h v := by
  refine alike_of_readStep (fun p st n hl => ?_) fun p items r' _ _ => ?_
  · by_cases hr : h.readPath v p = .array r ∧ st = .index i
    · obtain ⟨hr, rfl⟩ := hr
      rw [hr]
      refine .inr ⟨?_, hshut p hr⟩
      obtain ⟨hi, -⟩ := List.getElem?_eq_some_iff.mp hold
      rw [Heap.readStep, Heap.readStep, Heap.index, Heap.index, Heap.array_setArray_self,
        List.getElem?_set_self hi, hold]
      exact hx
    · refine .inl (Heap.readStep_setArray fun j hr' hst => ?_)
      have hne : i ≠ j := fun e => hr ⟨hr', e ▸ hst⟩
      simp [List.getElem?_set_ne hne]
  · by_cases e : r = r'
    · subst e
      simp
    · rw [Heap.array_setArray_ne h e]

/-- A cell that lies only where the schema is shut may get any contents. -/
theorem alike_inside (t : Handle) (hshut : ∀ p, h.readPath v p = t.toValue → s.Shut p)
    (hsame : ∀ u, u ≠ t → h.SameCell h' u) : s.Alike h' v h v := by
  have same : ∀ p, ¬ s.Shut p → ∀ u, h.readPath v p = u.toValue → h.SameCell h' u := by
    intro p hp u hu
    refine hsame u ?_
    rintro rfl
    exact hp (hshut p hu)
  refine alike_of_readStep (fun p st n hl => .inl ?_) fun p items r hl hr => ?_
  · exact Heap.readStep_of_sameCell (same p fun hp => hp.not_leads hl) st
  · exact congrArg List.length (same p (fun hp => (hp _ hl).1 rfl) (.array r) hr)

theorem HiddenEdit.alike (he : s.HiddenEdit v h h') : s.Alike h' v h v := by
  cases he with
  | @put r k x hk =>
    refine alike_setObject fun k' hk' => ?_
    have hne : k ≠ k' := fun e => hk (e ▸ hk')
    simp [Std.ExtTreeMap.getElem?_insert, hne]
  | @remove r k hk =>
    refine alike_setObject fun k' hk' => ?_
    have hne : k ≠ k' := fun e => hk (e ▸ hk')
    simp [Std.ExtTreeMap.getElem?_erase, hne]
  | @drop r k hk =>
    refine alike_setObject fun k' _ => ?_
    by_cases e : k = k'
    · subst e
      simp [hk]
    · simp [Std.ExtTreeMap.getElem?_erase, e]
  | field hold hx hshut => exact alike_insert hold hx hshut
  | element hold hx hshut => exact alike_set hold hx hshut
  | inside t hshut hsame => exact alike_inside t hshut hsame

end

end Schema

/-- The check of a value depends on what the schema declares only: values that have the same
kinds and lengths wherever it leads get the same answer, and so does a value after edits that it
does not show. -/
theorem check_depends_on_declared (c : Catalogue) (hc : c.KindOnly) (s : Schema) :
    (∀ h v h' v', s.Alike h v h' v' → check c h s v = check c h' s v') ∧
      ∀ v h h', Relation.ReflTransGen (s.HiddenEdit v) h h' → check c h' s v = check c h s v := by
  refine ⟨fun h v h' v' ha => check_of_alike hc ha, fun v h h' he => ?_⟩
  induction he with
  | refl => rfl
  | tail _ he ih => exact (check_of_alike hc he.alike).trans ih

def cardSchema : Schema := .object [("name", .tag "string"), ("remark", .any)]

/-- A card without a proper name, a key that holds absence, and a remark. -/
def cardHeap : Heap :=
  ((Heap.empty.allocFields [("text", .null)]).2.allocFields
    [("name", .null), ("draft", .undefined), ("remark", .object 0)]).2

def keyedCardHeap : Heap := cardHeap.setObject 1 ((cardHeap.object 1).insert "age" .null)

def clearedCardHeap : Heap :=
  keyedCardHeap.setObject 1 ((keyedCardHeap.object 1).erase "draft")

def editedCardHeap : Heap := clearedCardHeap.setObject 0 ∅

theorem leads_cardSchema {p : Path} {n : Schema} (hl : cardSchema.Leads p n) :
    (p = [] ∧ n = cardSchema) ∨ (p = [.field "name"] ∧ n = .tag "string") ∨
      (p = [.field "remark"] ∧ n = .any) := by
  cases hl with
  | here => exact .inl ⟨rfl, rfl⟩
  | field hk hl =>
    simp only [List.mem_cons, Prod.mk.injEq, List.not_mem_nil, or_false] at hk
    rcases hk with ⟨rfl, rfl⟩ | ⟨rfl, rfl⟩ <;> cases hl
    · exact .inr (.inl ⟨rfl, rfl⟩)
    · exact .inr (.inr ⟨rfl, rfl⟩)

theorem alike_editedCard :
    cardSchema.Alike cardHeap (.object 1) editedCardHeap (.object 1) := by
  refine ⟨fun p n hl => ?_, fun p items r r' hl => ?_⟩
  · rcases leads_cardSchema hl with ⟨rfl, -⟩ | ⟨rfl, -⟩ | ⟨rfl, -⟩ <;> decide
  · rcases leads_cardSchema hl with ⟨-, e⟩ | ⟨-, e⟩ | ⟨-, e⟩ <;> cases e

theorem hiddenEdits_card :
    Relation.ReflTransGen (cardSchema.HiddenEdit (.object 1)) cardHeap editedCardHeap := by
  have keyed : cardSchema.HiddenEdit (.object 1) cardHeap keyedCardHeap := by
    refine .put .null ?_
    rintro ⟨p, fields, n, hl, -, hk⟩
    rcases leads_cardSchema hl with ⟨-, e⟩ | ⟨-, e⟩ | ⟨-, e⟩ <;> cases e
    simp at hk
  have cleared : cardSchema.HiddenEdit (.object 1) keyedCardHeap clearedCardHeap :=
    .drop rfl
  have edited : cardSchema.HiddenEdit (.object 1) clearedCardHeap editedCardHeap := by
    refine .inside (.object 0) (fun p hp n hl => ?_) fun u hu => ?_
    · rcases leads_cardSchema hl with ⟨rfl, -⟩ | ⟨-, rfl⟩ | ⟨-, rfl⟩
      · cases hp
      · exact ⟨by decide, by decide⟩
      · exact ⟨by decide, by decide⟩
    · cases u with
      | object r =>
        exact Heap.object_setObject_ne _ (fun e => hu (congrArg Handle.object e.symm)) _
      | array r => rfl
  exact ((Relation.ReflTransGen.single keyed).tail cleared).tail edited

/-- The card's name is refused in the same words after the edits. -/
theorem check_depends_on_declared_card : Catalogue.builtin.KindOnly ∧
    cardSchema.Alike cardHeap (.object 1) editedCardHeap (.object 1) ∧
    Relation.ReflTransGen (cardSchema.HiddenEdit (.object 1)) cardHeap editedCardHeap ∧
    check .builtin cardHeap cardSchema (.object 1) =
      .error ⟨.kind, "string", "null", [.field "name"]⟩ ∧
    check .builtin cardHeap cardSchema (.object 1) =
      check .builtin editedCardHeap cardSchema (.object 1) ∧
    check .builtin editedCardHeap cardSchema (.object 1) =
      check .builtin cardHeap cardSchema (.object 1) := by
  obtain ⟨alike, edits⟩ :=
    check_depends_on_declared .builtin Catalogue.kindOnly_builtin cardSchema
  exact ⟨Catalogue.kindOnly_builtin, alike_editedCard, hiddenEdits_card, by decide,
    alike _ _ _ _ alike_editedCard, edits _ _ _ hiddenEdits_card⟩

end GuardedData
