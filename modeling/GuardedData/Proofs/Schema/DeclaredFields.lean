import Mathlib.Data.Finset.Card
import Mathlib.Logic.Relation
import GuardedData.Guard.Store
import GuardedData.Proofs.Check.Places
import GuardedData.Proofs.Schema.Accepted

/-!
# Declared fields

`InsertionOrdered pairs m` says that the entries `m` are what is left of pairs
that were given one after the other: the names in the order of their first
occurrences, each with what was given last. One more insertion keeps that, and
there is only one such list of entries. Fields have it in whatever way they were
made (`Fields.Made`), so that a lookup and a walk over the entries see the same
schema under a name (`Fields.orderedMap_of_made`).
-/

namespace GuardedData

namespace Keyed

section
variable {α : Type} {pairs : List (String × α)} {m m' : Keyed α} {key name : String} {a b : α}

/-! ## What was given last -/

/-- The last pair of that name gives this entry. -/
def LastGiven (pairs : List (String × α)) (key : String) (a : α) : Prop :=
  ∃ before after, pairs = before ++ (key, a) :: after ∧ key ∉ keys after

theorem not_lastGiven_nil : ¬ LastGiven [] key a := by
  rintro ⟨before, after, e, -⟩
  cases before <;> cases e

theorem keys_concat (pairs : List (String × α)) (name : String) (b : α) :
    keys (pairs ++ [(name, b)]) = keys pairs ++ [name] :=
  List.map_append

theorem lastGiven_concat : LastGiven (pairs ++ [(name, b)]) key a ↔
    if name = key then a = b else LastGiven pairs key a := by
  constructor
  · rintro ⟨before, after, e, hk⟩
    rcases List.eq_nil_or_concat after with rfl | ⟨after, q, rfl⟩
    · obtain ⟨-, hlast⟩ := List.append_singleton_inj.mp e
      obtain ⟨rfl, rfl⟩ := Prod.mk.inj hlast
      rw [if_pos rfl]
    · rw [List.concat_eq_append, ← List.cons_append, ← List.append_assoc] at e
      obtain ⟨hfront, rfl⟩ := List.append_singleton_inj.mp e
      rw [List.concat_eq_append, keys_concat, List.mem_append, List.mem_singleton] at hk
      obtain ⟨hafter, hne⟩ := not_or.mp hk
      rw [if_neg (Ne.symm hne)]
      exact ⟨before, after, hfront, hafter⟩
  · split
    · next hname =>
      rintro rfl
      exact ⟨pairs, [], by rw [hname], List.not_mem_nil⟩
    · next hname =>
      rintro ⟨before, after, rfl, hk⟩
      refine ⟨before, after ++ [(name, b)], by rw [List.append_assoc, List.cons_append], ?_⟩
      rw [keys_concat, List.mem_append, List.mem_singleton]
      exact not_or.mpr ⟨hk, Ne.symm hname⟩

theorem mem_keys_iff_exists : key ∈ keys m ↔ ∃ a, (key, a) ∈ m := by
  simp [keys]

theorem exists_lastGiven_iff : (∃ a, LastGiven pairs key a) ↔ key ∈ keys pairs := by
  induction pairs using List.reverseRecOn with
  | nil => exact ⟨fun ⟨a, h⟩ => absurd h not_lastGiven_nil, fun h => absurd h List.not_mem_nil⟩
  | append_singleton pairs p ih =>
    obtain ⟨name, b⟩ := p
    rw [keys_concat, List.mem_append, List.mem_singleton, ← ih]
    simp only [lastGiven_concat]
    by_cases hname : name = key
    · simp [hname]
    · simp [hname, Ne.symm hname]

/-! ## Entries in the order of insertion -/

/-- The entries are what is left of the pairs: the names stand in the order of their first
occurrences, and what is found under a name was given for it last. -/
structure InsertionOrdered (pairs : List (String × α)) (m : Keyed α) : Prop where
  ordered : (keys m).Pairwise fun k l => (keys pairs).idxOf k < (keys pairs).idxOf l
  found : ∀ key a, get? key m = some a ↔ LastGiven pairs key a

theorem InsertionOrdered.distinct (h : InsertionOrdered pairs m) : Distinct m := by
  refine h.ordered.imp ?_
  rintro k _ hlt rfl
  exact absurd hlt (Nat.lt_irrefl _)

theorem InsertionOrdered.mem_iff (h : InsertionOrdered pairs m) (key : String) (a : α) :
    (key, a) ∈ m ↔ LastGiven pairs key a :=
  ⟨fun hm => (h.found key a).mp (h.distinct.get?_of_mem hm),
    fun hl => mem_of_get? ((h.found key a).mpr hl)⟩

theorem InsertionOrdered.mem_keys_iff (h : InsertionOrdered pairs m) :
    key ∈ keys m ↔ key ∈ keys pairs := by
  rw [mem_keys_iff_exists, ← exists_lastGiven_iff]
  exact exists_congr (h.mem_iff key)

theorem InsertionOrdered.get?_eq_none_iff (h : InsertionOrdered pairs m) (key : String) :
    get? key m = none ↔ key ∉ keys pairs := by
  rw [← exists_lastGiven_iff, Option.eq_none_iff_forall_ne_some]
  simp only [ne_eq, h.found, not_exists]

theorem InsertionOrdered.length_eq (h : InsertionOrdered pairs m) :
    m.length = (keys pairs).toFinset.card := by
  have hnames : (keys m).toFinset = (keys pairs).toFinset := by
    ext key
    rw [List.mem_toFinset, List.mem_toFinset, h.mem_keys_iff]
  rw [← hnames, List.toFinset_card_of_nodup h.distinct]
  exact (List.length_map Prod.fst).symm

theorem InsertionOrdered.unique (h : InsertionOrdered pairs m) (h' : InsertionOrdered pairs m') :
    m = m' := by
  have hperm : m.Perm m' := perm_of_get?_eq h.distinct h'.distinct fun key =>
    Option.ext fun a => (h.found key a).trans (h'.found key a).symm
  -- entries whose names stand in a strict order are in one order only
  have sorted {n : Keyed α} (hn : InsertionOrdered pairs n) :
      n.Pairwise fun p q => (keys pairs).idxOf p.1 < (keys pairs).idxOf q.1 :=
    (List.pairwise_map (f := Prod.fst)).mp hn.ordered
  exact hperm.eq_of_pairwise (fun p q _ _ hpq hqp => absurd hpq (Nat.lt_asymm hqp))
    (sorted h) (sorted h')

theorem insertionOrdered_nil : InsertionOrdered ([] : List (String × α)) [] where
  ordered := .nil
  found _ _ := ⟨nofun, fun h => absurd h not_lastGiven_nil⟩

/-- One more insertion is one more pair. -/
theorem InsertionOrdered.insert (h : InsertionOrdered pairs m) (name : String) (b : α) :
    InsertionOrdered (pairs ++ [(name, b)]) (Keyed.insert name b m) where
  found key a := by
    rw [lastGiven_concat]
    split
    · next hname =>
      rw [hname, get?_insert_self, Option.some.injEq]
      exact eq_comm
    · next hname => rw [get?_insert_ne hname, h.found]
  ordered := by
    -- names that were there keep the place of their first occurrence
    have hplace : ∀ k ∈ keys m, (keys pairs ++ [name]).idxOf k = (keys pairs).idxOf k :=
      fun k hk => List.idxOf_append_of_mem (h.mem_keys_iff.mp hk)
    have hold : (keys m).Pairwise fun k l =>
        (keys pairs ++ [name]).idxOf k < (keys pairs ++ [name]).idxOf l :=
      h.ordered.imp_of_mem fun hk hl hlt => by rwa [hplace _ hk, hplace _ hl]
    rw [keys_concat, keys_insert]
    split
    · exact hold
    · next hnew =>
      refine List.pairwise_append.mpr ⟨hold, List.pairwise_singleton _ _, fun k hk l hl => ?_⟩
      obtain rfl := List.mem_singleton.mp hl
      have hlast : (keys pairs ++ [l]).idxOf l = (keys pairs).length := by
        rw [List.idxOf_append_of_notMem (mt h.mem_keys_iff.mpr hnew), List.idxOf_cons_self,
          Nat.add_zero]
      rw [hplace k hk, hlast]
      exact List.idxOf_lt_length_iff.mpr (h.mem_keys_iff.mp hk)

theorem insertionOrdered_ofList (pairs : List (String × α)) :
    InsertionOrdered pairs (ofList pairs) := by
  induction pairs using List.reverseRecOn with
  | nil => exact insertionOrdered_nil
  | append_singleton pairs p ih =>
    rw [ofList_concat]
    exact ih.insert p.1 p.2

end

end Keyed

/-! ## Ways to make fields -/

namespace Fields

/-- The fields were made from pairs given one after the other: from nothing, by one more
insertion, from all of them at once, or by reading a document. -/
inductive Made : List (String × Schema) → Fields → Prop where
  | new : Made [] []
  | insert {pairs : List (String × Schema)} {fields : Fields} (key : String) (s : Schema) :
      Made pairs fields → Made (pairs ++ [(key, s)]) (Keyed.insert key s fields)
  | collect (pairs : List (String × Schema)) : Made pairs (Keyed.ofList pairs)
  | read {members : Keyed Json} {pairs : List (String × Schema)} {fields : Fields} :
      Schema.ReadsAs members pairs → Schema.fieldsOf? (.object members) = some fields →
      Made pairs fields

/-- The fields were made from what a fields document somewhere inside `j` gives. -/
def MadeInside (j : Json) (fields : Fields) : Prop :=
  ∃ members pairs, Relation.TransGen Json.Inside (.object members) j ∧
    Schema.ReadsAs members pairs ∧ Made pairs fields

theorem MadeInside.outside {content j : Json} {fields : Fields} (hf : MadeInside content fields)
    (hc : content.Inside j) : MadeInside j fields := by
  obtain ⟨members, pairs, hin, hd⟩ := hf
  exact ⟨members, pairs, hin.tail hc, hd⟩

section
variable {pairs : List (String × Schema)} {fields : Fields} {members : Keyed Json}

theorem fieldsOf?_of_readsAs (hd : Schema.ReadsAs members pairs) :
    Schema.fieldsOf? (.object members) = some (Keyed.ofList pairs) :=
  Schema.fieldsOf?_eq_some_iff.mpr ⟨pairs, hd, rfl⟩

/-- All ways to make fields keep the order of insertion. -/
theorem Made.insertionOrdered (hm : Made pairs fields) : Keyed.InsertionOrdered pairs fields := by
  induction hm with
  | new => exact Keyed.insertionOrdered_nil
  | insert key s _ ih => exact ih.insert key s
  | collect pairs => exact Keyed.insertionOrdered_ofList pairs
  | read hd hf =>
    rw [fieldsOf?_of_readsAs hd] at hf
    exact Option.some.inj hf ▸ Keyed.insertionOrdered_ofList _

theorem Made.unique {fields' : Fields} (hm : Made pairs fields) (hm' : Made pairs fields') :
    fields = fields' :=
  hm.insertionOrdered.unique hm'.insertionOrdered

end

end Fields

/-! ## Lookups and checks -/

section
variable {c : Catalogue} {h : Heap} {fields : Fields} {v : Value}

/-- A view of an object has under a name what is found there. -/
theorem View.slotSchema_object {w : View} {r : Ref} (ht : w.target = .object r)
    (hs : w.schema = .object fields) (key : Key) :
    w.slotSchema key = (Keyed.get? key.toName fields).getD .undefined := by
  simp only [View.slotSchema, ht, hs, Schema.fieldSchema]

/-- A walk over declared fields is one over their names, if a lookup gives the schema of each. -/
theorem checkFields_eq_forM {lookup : String → Schema}
    (hl : ∀ k s, (k, s) ∈ fields → lookup k = s) :
    checkFields c h fields v = forM (Keyed.keys fields) fun key =>
      (check c h (lookup key) (h.field v key)).mapError (Mismatch.under · (.field key)) := by
  induction fields with
  | nil => rfl
  | cons p rest ih =>
    have hrest := ih fun k s hm => hl k s (List.mem_cons_of_mem _ hm)
    rw [checkFields, Keyed.keys, List.map_cons, List.forM_cons, hl p.1 p.2 List.mem_cons_self]
    cases check c h p.2 (h.field v p.1) with
    | error m => rfl
    | ok u => exact hrest

end

namespace Schema

/-- All fields in the schema were made. -/
def OfMadeFields (S : Schema) : Prop :=
  ∀ fields, Within (.object fields) S → ∃ pairs, Fields.Made pairs fields

theorem OfMadeFields.wellFormed {S : Schema} (hS : S.OfMadeFields) : S.WellFormed :=
  fun fields hf =>
    have ⟨_, hm⟩ := hS fields hf
    hm.insertionOrdered.distinct

/-- The fields in the schema of a document were read from a document inside it. -/
theorem madeInside_of_within {j : Json} {S : Schema} {fields : Fields}
    (h : ofSubdocument? j = some S) (hf : Within (.object fields) S) :
    Fields.MadeInside j fields := by
  induction hf generalizing j with
  | refl =>
    cases unfolds_of_ofSubdocument? h with
    | object hc hs =>
      obtain ⟨members, rfl, -⟩ := fields_of_fieldsOf? hs
      obtain ⟨pairs, hd, -⟩ := fieldsOf?_eq_some_iff.mp hs
      exact ⟨members, pairs, .single hc, hd, .read hd hs⟩
  | array _ ih =>
    cases unfolds_of_ofSubdocument? h with
    | array hc hs => exact (ih hs).outside hc
  | nullable _ ih =>
    cases unfolds_of_ofSubdocument? h with
    | nullable hc hs => exact (ih hs).outside hc
  | optional _ ih =>
    cases unfolds_of_ofSubdocument? h with
    | optional hc hs => exact (ih hs).outside hc
  | field hm _ ih =>
    cases unfolds_of_ofSubdocument? h with
    | object hc hs =>
      obtain ⟨members, rfl, -, hfields⟩ := fields_of_fieldsOf? hs
      obtain ⟨l, _, hl, hs⟩ := hfields _ _ hm
      exact ((ih hs).outside (.member l hl)).outside hc
  | branch hb _ ih =>
    cases unfolds_of_ofSubdocument? h with
    | union hc hs =>
      obtain ⟨items, rfl, hbranches⟩ := branches_of_branchesOf? hs
      obtain ⟨_, hitem, hs⟩ := hbranches _ hb
      exact ((ih hs).outside (.item hitem)).outside hc

theorem inner_descend_congr {s t : Schema} (hst : ∀ st, s.inner st = t.inner st) (p : Path)
    (st : PathStep) : (s.descend p).inner st = (t.descend p).inner st := by
  cases p with
  | nil => exact hst st
  | cons st' p => simp only [descend, List.foldl_cons, hst]

end Schema

/-- What is looked up from the root inside a place is what the node of the place gives. -/
theorem Place.inner_descend {h : Heap} {S n : Schema} {v w : Value} {p : Path}
    (hp : Place h S v p n w) (hS : S.WellFormed) (st : PathStep) :
    (S.descend p).inner st = n.inner st := by
  induction hp with
  | here _ => rfl
  | modifier e _ ih =>
    obtain ⟨hw, hsame⟩ := Schema.within_of_opens e
    rw [Schema.inner_descend_congr hsame, ih (hS.of_within hw)]
  | field _ _ hm _ ih =>
    have hhere := Schema.inner_object (hS _ .refl) hm
    rw [Schema.descend, List.foldl_cons, hhere]
    exact ih (hS.of_within (.field hm .refl))
  | element _ _ ih =>
    rw [Schema.descend, List.foldl_cons, Schema.inner_array]
    exact ih (hS.of_within (.array .refl))

namespace Fields

/-- Fields are an insertion-ordered map of the pairs they were made from. The names are distinct
and stand in the order of their first occurrences, each with the schema that was given for it
last; a lookup finds that schema, and nothing under other names. All ways to make fields from the
same pairs give the same, and a document of the pairs is always read. So a view looks up the schema
of the one entry of a name, and the walk of a check goes on with what is looked up, at every place
inside a schema of made fields, such as that of a document. -/
theorem orderedMap_of_made {pairs : List (String × Schema)} {fields : Fields}
    (hm : Made pairs fields) :
    (Keyed.Distinct fields ∧ (Keyed.keys fields).Pairwise fun k l =>
      (Keyed.keys pairs).idxOf k < (Keyed.keys pairs).idxOf l) ∧
    (∀ key s, (key, s) ∈ fields ↔ Keyed.LastGiven pairs key s) ∧
    (∀ key s, Keyed.get? key fields = some s ↔ Keyed.LastGiven pairs key s) ∧
    (∀ key, Keyed.get? key fields = none ↔ key ∉ Keyed.keys pairs) ∧
    fields.length = (Keyed.keys pairs).toFinset.card ∧
    (∀ fields', Made pairs fields' ↔ fields' = fields) ∧
    (∀ members, Schema.ReadsAs members pairs →
      Schema.fieldsOf? (.object members) = some fields) ∧
    (∀ (w : View) (r : Ref) (key : Key), w.target = .object r → w.schema = .object fields →
      (∀ s, (key.toName, s) ∈ fields → w.slotSchema key = s) ∧
      (key.toName ∉ Keyed.keys pairs → w.slotSchema key = .undefined)) ∧
    (∀ c h v, checkFields c h fields v = forM (Keyed.keys fields) fun key =>
      (check c h ((Schema.object fields).fieldSchema key) (h.field v key)).mapError
        (Mismatch.under · (.field key))) ∧
    (∀ (S : Schema) h v p x, S.OfMadeFields → Place h S v p (.object fields) x →
      ∀ key s, (key, s) ∈ fields → S.descend (p ++ [.field key]) = s) ∧
    ∀ j S, Schema.ofSubdocument? j = some S →
      ∀ fields', Schema.Within (.object fields') S → MadeInside j fields' := by
  have ho := hm.insertionOrdered
  refine ⟨⟨ho.distinct, ho.ordered⟩, ho.mem_iff, ho.found, ho.get?_eq_none_iff, ho.length_eq,
    fun fields' => ⟨fun hm' => hm'.unique hm, fun e => e ▸ hm⟩, ?reading, ?views, ?checks, ?places,
    fun j S h fields' => Schema.madeInside_of_within h⟩
  case reading =>
    intro members hd
    rw [fieldsOf?_of_readsAs hd, (Made.collect pairs).unique hm]
  case views =>
    intro w r key ht hs
    rw [View.slotSchema_object ht hs]
    refine ⟨fun s hk => ?_, fun hk => ?_⟩
    · rw [ho.distinct.get?_of_mem hk, Option.getD_some]
    · rw [(ho.get?_eq_none_iff _).mpr hk, Option.getD_none]
  case checks =>
    exact fun c h v => checkFields_eq_forM fun _ _ => Schema.inner_object ho.distinct
  case places =>
    intro S h v p x hS hp key s hk
    rw [Schema.descend_snoc, hp.inner_descend hS.wellFormed, Schema.inner_object ho.distinct hk]

/-- The members of a fields document, one name twice. -/
def passMembers : Keyed Json :=
  [("row", Schema.bareDocument .any), ("seat", Schema.bareDocument .null),
    ("row", Schema.bareDocument .never)]

def readPairs : List (String × Schema) := [("row", .any), ("seat", .null), ("row", .never)]

/-- Two more pairs after these. -/
def passPairs : List (String × Schema) :=
  readPairs ++ [("gate", .any)] ++ [("seat", .optional .any)]

/-- What is left of all of them. -/
def passFields : Fields := [("row", .never), ("seat", .optional .any), ("gate", .any)]

theorem readsAs_pass : Schema.ReadsAs passMembers readPairs :=
  .cons ⟨rfl, rfl⟩ (.cons ⟨rfl, rfl⟩ (.cons ⟨rfl, rfl⟩ .nil))

theorem made_pass : Made passPairs passFields := by
  have hread : Made readPairs [("row", .never), ("seat", .null)] := .read readsAs_pass rfl
  exact (hread.insert "gate" .any).insert "seat" (.optional .any)

def passes : Schema := .array (.object passFields)

theorem ofMadeFields_passes : passes.OfMadeFields := by
  intro fields hf
  cases hf with
  | array hf =>
    cases hf with
    | refl => exact ⟨_, made_pass⟩
    | field hm hf =>
      simp only [passFields, List.mem_cons, Prod.mk.injEq, List.not_mem_nil, or_false] at hm
      rcases hm with ⟨-, rfl⟩ | ⟨-, rfl⟩ | ⟨-, rfl⟩
      · cases hf
      · rcases hf with _ | _ | _ | _ | hf
        cases hf
      · cases hf

def passHeap : Heap := .setArray .empty 0 [.object 1]

def passView : View := ⟨.object 1, .object passFields, 0, .strict .empty, 1⟩

/-- The last schema of a repeated name is in its first place, where a view and a check find it. -/
theorem orderedMap_of_made_pass :
    Made passPairs passFields ∧ Keyed.Distinct passFields ∧
    Keyed.get? "seat" passFields = some (.optional .any) ∧
    Keyed.get? "price" passFields = none ∧ passFields.length = 3 ∧
    passView.slotSchema (.name "row") = .never ∧
    passView.slotSchema (.name "price") = .undefined ∧
    checkFields .empty passHeap passFields (.object 1) =
      .error ((Mismatch.never "undefined").under (.field "row")) ∧
    passes.descend [.index 0, .field "seat"] = .optional .any ∧
    MadeInside (Schema.document .object "fields" (.object passMembers))
      [("row", .never), ("seat", .null)] := by
  obtain ⟨⟨hdistinct, -⟩, -, hfound, habsent, hlength, -, -, hview, hcheck, hplace, hinside⟩ :=
    orderedMap_of_made made_pass
  have hplace' : Place passHeap passes (.array 0) [.index 0] (.object passFields) (.object 1) :=
    .element rfl (.here rfl)
  refine ⟨made_pass, hdistinct, (hfound _ _).mpr ?_, (habsent "price").mpr (by decide),
    hlength.trans (by decide), ?_, ?_, (hcheck _ _ _).trans rfl, ?_, ?_⟩
  · exact ⟨readPairs ++ [("gate", .any)], [], rfl, by decide⟩
  · exact (hview passView 1 (.name "row") rfl rfl).1 _ List.mem_cons_self
  · exact (hview passView 1 (.name "price") rfl rfl).2 (by decide)
  · exact hplace passes passHeap _ _ _ ofMadeFields_passes hplace' "seat" _
      (List.mem_cons_of_mem _ List.mem_cons_self)
  · exact hinside _ (.object [("row", .never), ("seat", .null)]) rfl _ .refl

end Fields

end GuardedData
