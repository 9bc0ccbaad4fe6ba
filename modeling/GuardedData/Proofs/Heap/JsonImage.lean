import GuardedData.Heap.Equality
import GuardedData.Proofs.Heap.Documents

/-!
# What JSON keeps of a value

`h.Image g v w` says kind by kind what becomes of a value `v` that is written as
a document and built again in `g`: arrays keep their lengths and their order, and
objects lose exactly the fields that hold something that vanishes. A value is
`JsonShaped` if it is built only from what JSON has: those values, and no others,
equal their image (`eqUpTo_image_iff`), and every image is one of them.
-/

namespace GuardedData

/-- Absence, functions and symbols have no document. -/
def Value.Vanishes : Value → Prop
  | .undefined | .function _ | .symbol _ => True
  | _ => False

/-- A number, or null in the place of one that is not finite. -/
def Value.finiteOrNull (x : Float) : Value := if x.isFinite then .number x else .null

namespace Heap

/-- The value is built from null, booleans, finite numbers, strings, arrays and objects. -/
inductive JsonShaped (h : Heap) : Value → Prop where
  | null : JsonShaped h .null
  | bool (b : Bool) : JsonShaped h (.bool b)
  | number {x : Float} : x.isFinite = true → JsonShaped h (.number x)
  | string (s : String) : JsonShaped h (.string s)
  | array {r : Ref} : (∀ x ∈ h.array r, JsonShaped h x) → JsonShaped h (.array r)
  | object {r : Ref} : (∀ (k : String) (x : Value), (h.object r)[k]? = some x → JsonShaped h x) →
      JsonShaped h (.object r)

/-- The value of `g` is what JSON makes of the value of `h`. -/
inductive Image (h g : Heap) : Value → Value → Prop where
  | null : Image h g .null .null
  | bool (b : Bool) : Image h g (.bool b) (.bool b)
  | number (x : Float) : Image h g (.number x) (.finiteOrNull x)
  | string (s : String) : Image h g (.string s) (.string s)
  /-- What has no document is null, where it is not a field. -/
  | vanished {v : Value} : v.Vanishes → Image h g v .null
  | bigint (n : Int) : Image h g (.bigint n) (.string (toString n))
  | date (t : Timestamp) : Image h g (.date t) (.string t.render)
  | map (entries : List (Value × Value)) {s : Ref} : g.object s = ∅ →
      Image h g (.map entries) (.object s)
  | set (items : List Value) {s : Ref} : g.object s = ∅ → Image h g (.set items) (.object s)
  | bytes (content : List UInt8) {s : Ref} :
      g.array s = content.map (fun b => .number (Float.ofNat b.toNat)) →
      Image h g (.bytes content) (.array s)
  | typedArray (content : TypedArray) {s : Ref} :
      g.array s = content.toFloats.map Value.finiteOrNull →
      Image h g (.typedArray content) (.array s)
  /-- As many elements, in the same order. -/
  | array {r s : Ref} : List.Forall₂ (Image h g) (h.array r) (g.array s) →
      Image h g (.array r) (.array s)
  /-- The fields that do not hold something that vanishes. -/
  | object {r s : Ref} :
      (∀ k : String, (g.object s)[k]? = none ↔ ∀ x, (h.object r)[k]? = some x → x.Vanishes) →
      (∀ (k : String) (x y : Value), (h.object r)[k]? = some x → (g.object s)[k]? = some y →
        Image h g x y) →
      Image h g (.object r) (.object s)

section
variable {h g : Heap} {j : Json} {v w x y : Value} {n : Nat}

/-! ## The document of a value -/

theorem toJsonUpTo?_eq_none_iff : h.toJsonUpTo? n v = none ↔ v.Vanishes := by
  cases n <;> cases v <;> simp [toJsonUpTo?, Value.toJsonWith?, Value.Vanishes]

theorem generic_ofFloat (x : Float) : (Json.ofFloat x).Generic := by
  rw [Json.ofFloat]
  split
  · next hx => exact .number hx
  · exact .null

theorem generic_byte (b : UInt8) : (Json.number (.int b.toNat)).Generic := by
  refine .number ⟨?_, ?_⟩
  · exact Int.le_trans (by decide) (Int.natCast_nonneg _)
  · have hb := b.toNat_lt
    omega

theorem generic_toJsonWith? {handles : Handle → Json} (hh : ∀ t, (handles t).Generic)
    (hj : v.toJsonWith? handles = some j) : j.Generic := by
  cases v with
  | undefined | function _ | symbol _ => cases hj
  | null => exact Option.some.inj hj ▸ .null
  | bool b => exact Option.some.inj hj ▸ .bool b
  | number x => exact Option.some.inj hj ▸ generic_ofFloat x
  | bigint _ | date _ | string _ => exact Option.some.inj hj ▸ .string _
  | map _ | set _ => exact Option.some.inj hj ▸ .object List.nodup_nil nofun
  | bytes content =>
    refine Option.some.inj hj ▸ .array fun j hm => ?_
    obtain ⟨b, -, rfl⟩ := List.mem_map.mp hm
    exact generic_byte b
  | typedArray content =>
    refine Option.some.inj hj ▸ .array fun j hm => ?_
    obtain ⟨x, -, rfl⟩ := List.mem_map.mp hm
    exact generic_ofFloat x
  | object r => exact Option.some.inj hj ▸ hh (.object r)
  | array r => exact Option.some.inj hj ▸ hh (.array r)

theorem generic_toJsonUpTo? (hj : h.toJsonUpTo? n v = some j) : j.Generic := by
  induction n generalizing v j with
  | zero => exact generic_toJsonWith? (fun _ => .null) hj
  | succ n ih =>
    refine generic_toJsonWith? (fun t => ?_) hj
    cases t with
    | object r =>
      refine .object ?_ fun k j hm => ?_
      · exact (Properties.distinct_toList _).sublist (Keyed.keys_filterMap_sublist _ _)
      · obtain ⟨p, -, hp⟩ := List.mem_filterMap.mp hm
        obtain ⟨i, hi, e⟩ := Option.map_eq_some_iff.mp hp
        obtain ⟨-, rfl⟩ := Prod.mk.inj e
        exact ih hi
    | array r =>
      refine .array fun j hm => ?_
      obtain ⟨x, -, rfl⟩ := List.mem_map.mp hm
      cases hx : h.toJsonUpTo? n x with
      | none => exact .null
      | some j => exact ih hx

theorem generic_toJson (h : Heap) (v : Value) : (h.toJson v).Generic := by
  rw [toJson, toJson?]
  cases hj : h.toJsonUpTo? h.depth v with
  | none => exact .null
  | some j => exact generic_toJsonUpTo? hj

theorem Represents.jsonShaped (hj : j.Generic) (hr : g.Represents j w) : g.JsonShaped w := by
  induction hj generalizing w with
  | null =>
    cases hr
    exact .null
  | bool b =>
    cases hr
    exact .bool b
  | string s =>
    cases hr
    exact .string s
  | number hn =>
    cases hr
    exact .number hn.isFinite
  | array _ ih =>
    cases hr with
    | array hr =>
      refine .array fun x hx => ?_
      obtain ⟨j, hj, hjx⟩ := Related.exists_of_mem hr hx
      exact ih j hj hjx
  | @object members _ _ ih =>
    cases hr with
    | object hr =>
      refine .object fun k x hx => ?_
      obtain ⟨j, hj, hjx⟩ := Related.exists_of_eq_some (hr k) hx
      exact ih k j (Keyed.mem_of_get? hj) hjx

/-! ## The image of a value -/

theorem Represents.eq_finiteOrNull {x : Float} (hr : g.Represents (Json.ofFloat x) w) :
    w = .finiteOrNull x := by
  rw [Json.ofFloat] at hr
  rw [Value.finiteOrNull]
  split at hr
  · next hx =>
    cases hr
    exact (if_pos hx).symm
  · next hx =>
    cases hr
    exact (if_neg hx).symm

theorem Represents.eq_string {s : String} (hr : g.Represents (.string s) w) : w = .string s := by
  cases hr
  rfl

theorem Represents.exists_empty (hr : g.Represents (.object []) w) :
    ∃ s, w = .object s ∧ g.object s = ∅ := by
  cases hr with
  | @object _ s hr =>
    refine ⟨s, rfl, Std.ExtTreeMap.ext_getElem? fun k => ?_⟩
    rw [Std.ExtTreeMap.getElem?_empty]
    exact (Related.eq_none_iff (hr k)).mp rfl

/-- An array that represents numbers holds them. -/
theorem Represents.exists_array {α : Type} {f : α → Json} {e : α → Value} {items : List α}
    (hr : g.Represents (.array (items.map f)) w)
    (hf : ∀ x y, g.Represents (f x) y → y = e x) :
    ∃ s, w = .array s ∧ g.array s = items.map e := by
  cases hr with
  | @array _ s hr =>
    refine ⟨s, rfl, ?_⟩
    rw [← Related.map_eq (List.forall₂_map_left_iff.mp hr) fun x _ y _ => hf x y, List.map_id'']
    exact fun _ => rfl

theorem image_of_scalar {handles : Handle → Json} (hv : v.handle? = none)
    (hr : g.Represents ((v.toJsonWith? handles).getD .null) w) : Image h g v w := by
  cases v with
  | object r => cases hv
  | array r => cases hv
  | undefined | function _ | symbol _ =>
    cases hr
    exact .vanished trivial
  | null =>
    cases hr
    exact .null
  | bool b =>
    cases hr
    exact .bool b
  | number x =>
    obtain rfl := Represents.eq_finiteOrNull hr
    exact .number x
  | string s =>
    obtain rfl := Represents.eq_string hr
    exact .string s
  | bigint n =>
    obtain rfl := Represents.eq_string hr
    exact .bigint n
  | date t =>
    obtain rfl := Represents.eq_string hr
    exact .date t
  | map entries =>
    obtain ⟨s, rfl, hs⟩ := Represents.exists_empty hr
    exact .map entries hs
  | set items =>
    obtain ⟨s, rfl, hs⟩ := Represents.exists_empty hr
    exact .set items hs
  | bytes content =>
    have hb (b : UInt8) (y : Value) (hy : g.Represents (.number (.int b.toNat)) y) :
        y = .number (Float.ofNat b.toNat) := by
      cases hy
      rw [Number.toFloat_natCast]
    obtain ⟨s, rfl, hs⟩ := Represents.exists_array hr hb
    exact .bytes content hs
  | typedArray content =>
    obtain ⟨s, rfl, hs⟩ := Represents.exists_array hr fun x y hy => hy.eq_finiteOrNull
    exact .typedArray content hs

/-- What is built of the document of a value is its image. -/
theorem image_of_represents (hv : h.Shallow n v)
    (hr : g.Represents ((h.toJsonUpTo? n v).getD .null) w) : Image h g v w := by
  induction n generalizing v w with
  | zero => exact image_of_scalar (handle?_of_shallow_zero hv) hr
  | succ n ih =>
    cases v with
    | array r =>
      cases hr with
      | array hr =>
        refine .array (Related.forall₂_imp (List.forall₂_map_left_iff.mp hr) fun x hx y _ hxy => ?_)
        exact ih (hv.of_mem (t := .array r) hx) hxy
    | object r =>
      cases hr with
      | @object _ s hr =>
        have hk (k : String) : Option.Rel g.Represents
            ((h.object r)[k]?.bind (h.toJsonUpTo? n)) (g.object s)[k]? := by
          rw [← Properties.get?_toList, ← (Properties.distinct_toList _).get?_filterMap]
          exact hr k
        refine .object (fun k => ?_) fun k x y hx hy => ?_
        · rw [← Related.eq_none_iff (hk k), Option.bind_eq_none_iff]
          exact forall₂_congr fun x _ => toJsonUpTo?_eq_none_iff
        · obtain ⟨j, hj, hjy⟩ := Related.exists_of_eq_some (hk k) hy
          rw [hx, Option.bind_some] at hj
          have hc : h.child? (.object r) (.field k) = some x := hx
          refine ih (hv.child (t := .object r) hc) ?_
          rw [hj]
          exact hjy
    | _ => exact image_of_scalar rfl hr

/-! ## What equals its image -/

theorem eqWith_image_iff {handles : Handle → Handle → Bool} (hv : v.handle? = none)
    (hi : Image h g v w) : Value.eqWith handles w v = true ↔ h.JsonShaped v := by
  cases hi with
  | array _ => cases hv
  | object _ _ => cases hv
  | null => exact ⟨fun _ => .null, fun _ => rfl⟩
  | bool b => exact ⟨fun _ => .bool b, fun _ => beq_self_eq_true b⟩
  | string s => exact ⟨fun _ => .string s, fun _ => beq_self_eq_true s⟩
  | number x =>
    rw [Value.finiteOrNull]
    split
    · next hx => exact ⟨fun _ => .number hx, fun _ => Binary64.beq_self hx⟩
    · next hx => exact ⟨nofun, fun hs => by cases hs; contradiction⟩
  | vanished hv =>
    cases v with
    | undefined | function _ | symbol _ => exact ⟨nofun, nofun⟩
    | _ => cases hv
  | bigint _ | date _ | map _ _ | set _ _ | bytes _ _ | typedArray _ _ => exact ⟨nofun, nofun⟩

theorem JsonShaped.not_vanishes (hs : h.JsonShaped v) : ¬ v.Vanishes := by
  cases hs <;> exact id

theorem eqUpTo_array {r s : Ref} (hne : s ≠ r) :
    g.eqUpTo (n + 1) (.array s) (.array r) = true ↔
      List.Forall₂ (fun y x => g.eqUpTo n y x = true) (g.array s) (g.array r) := by
  rw [← Properties.pairwise_eq_true_iff]
  show (s == r || pairwise (g.eqUpTo n) (g.array s) (g.array r)) = true ↔ _
  rw [beq_false_of_ne hne, Bool.false_or]

theorem eqUpTo_object {r s : Ref} (hne : s ≠ r) :
    g.eqUpTo (n + 1) (.object s) (.object r) = true ↔
      ∀ k : String, Option.Rel (fun y x => g.eqUpTo n y x = true) (g.object s)[k]?
        (g.object r)[k]? := by
  rw [← Properties.pairwise_toList_iff]
  show (s == r || pairwise _ (g.object s).toList (g.object r).toList) = true ↔ _
  rw [beq_false_of_ne hne, Bool.false_or]

/-- The fields that are left equal those that there were just if all are JSON shaped. -/
theorem rel_fields_iff {R : Value → Value → Prop} {props props' : Properties}
    (hkeys : ∀ k : String, props'[k]? = none ↔ ∀ x, props[k]? = some x → x.Vanishes)
    (hfield : ∀ (k : String) (x y : Value), props[k]? = some x → props'[k]? = some y →
      (R y x ↔ h.JsonShaped x)) :
    (∀ k : String, Option.Rel R props'[k]? props[k]?) ↔
      ∀ (k : String) (x : Value), props[k]? = some x → h.JsonShaped x := by
  constructor
  · intro hrel k x hx
    obtain ⟨y, hy, hyx⟩ := Related.exists_of_eq_some (hrel k) hx
    exact (hfield k x y hx hy).mp hyx
  · intro hs k
    rcases hx : props[k]? with _ | x
    · have hy : props'[k]? = none := (hkeys k).mpr fun x hx' => by
        rw [hx] at hx'
        cases hx'
      rw [hy]
      exact .none
    · rcases hy : props'[k]? with _ | y
      · exact absurd ((hkeys k).mp hy x hx) (hs k x hx).not_vanishes
      · exact .some ((hfield k x y hx hy).mpr (hs k x hx))

/-- A value equals its image, which lies apart from it, just if it is JSON shaped. -/
theorem eqUpTo_image_iff (hi : Image h g v w) (hs : h.Shallow n v) (hg : h.Grows g)
    (hv : ∀ t, h.Reaches v t → t.ref < h.next) (hw : ∀ t, g.Reaches w t → h.next ≤ t.ref) :
    g.eqUpTo n w v = true ↔ h.JsonShaped v := by
  induction n generalizing v w with
  | zero => exact eqWith_image_iff (handle?_of_shallow_zero hs) hi
  | succ n ih =>
    have inner {t u : Handle} {st st' : PathStep} {x y : Value} (ht : v = t.toValue)
        (hu : w = u.toValue) (hx : h.child? t st = some x) (hy : g.child? u st' = some y)
        (hxy : Image h g x y) : g.eqUpTo n y x = true ↔ h.JsonShaped x := by
      subst ht hu
      exact ih hxy (hs.child hx) (fun a ha => hv a (.of_child hx ha))
        fun a ha => hw a (.of_child hy ha)
    cases v with
    | array r =>
      cases hi with
      | vanished hv => cases hv
      | @array _ s hi =>
        have hr : r < h.next := hv (.array r) (.refl h (.array r))
        have hs : h.next ≤ s := hw (.array s) (.refl g (.array s))
        have hne : s ≠ r := Nat.ne_of_gt (Nat.lt_of_lt_of_le hr hs)
        have hcell : g.array r = h.array r := hg.cells (.array r) hr
        rw [eqUpTo_array hne, hcell, Related.forall₂_iff_forall hi fun x hx y hy hxy => ?_]
        · exact ⟨.array, fun hs => by cases hs; assumption⟩
        · obtain ⟨st, hx⟩ := exists_child?_of_mem_contents (t := .array r) hx
          obtain ⟨st', hy⟩ := exists_child?_of_mem_contents (t := .array s) hy
          exact inner rfl rfl hx hy hxy
    | object r =>
      cases hi with
      | vanished hv => cases hv
      | @object _ s hkeys hi =>
        have hr : r < h.next := hv (.object r) (.refl h (.object r))
        have hne : s ≠ r :=
          Nat.ne_of_gt (Nat.lt_of_lt_of_le hr (hw (.object s) (.refl g (.object s))))
        have hcell : g.object r = h.object r := hg.cells (.object r) hr
        rw [eqUpTo_object hne, hcell, rel_fields_iff hkeys fun k x y hx hy => ?_]
        · exact ⟨.object, fun hs => by cases hs; assumption⟩
        · have hc : h.child? (.object r) (.field k) = some x := hx
          have hd : g.child? (.object s) (.field k) = some y := hy
          exact inner rfl rfl hc hd (hi k x y hx hy)
    | _ => exact eqWith_image_iff rfl hi

/-! ## Once and twice -/

/-- A value without cycles, and its image. -/
theorem image_toJson (hb : h.Backs v) (ha : h.Acyclic v) :
    Image h (h.ofJson (h.toJson v)).2 v (h.ofJson (h.toJson v)).1 ∧
      ((h.ofJson (h.toJson v)).2.eq (h.ofJson (h.toJson v)).1 v = true ↔ h.JsonShaped v) := by
  have built := built_ofJson (generic_toJson h v) h
  have hi :=
    image_of_represents (ha.shallow hb) (represents_ofJson (generic_toJson h v) h (.refl _))
  exact ⟨hi, eqUpTo_image_iff hi ((ha.shallow hb).mono built.grows.depth) built.grows
    (fun t ht => (hb t ht).2) fun t ht => (built.reaches List.mem_cons_self ht).1⟩

/-- JSON keeps of a document its normal form, and of a value without cycles its image: the image
of an image equals it, and a value equals its image just if it is JSON shaped. -/
theorem json_projects (h : Heap) :
    (∀ j : Json, j.Generic → (h.ofJson j).2.toJson (h.ofJson j).1 = j.normalize) ∧
    ∀ v, h.Backs v → h.Acyclic v →
      let once := h.ofJson (h.toJson v)
      let twice := once.2.ofJson (once.2.toJson once.1)
      twice.2.eq twice.1 once.1 = true ∧ (once.2.eq once.1 v = true ↔ h.JsonShaped v) ∧
        Image h once.2 v once.1 := by
  refine ⟨fun j hj => toJson_ofJson hj h, fun v hb ha => ?_⟩
  obtain ⟨hi, heq⟩ := image_toJson hb ha
  refine ⟨?_, heq, hi⟩
  have built := built_ofJson (generic_toJson h v) h
  have shaped :=
    (represents_ofJson (generic_toJson h v) h (.refl _)).jsonShaped (generic_toJson h v)
  have image := image_toJson (built.backs List.mem_cons_self) (built.acyclic List.mem_cons_self)
  exact image.2.mpr shaped

end

end Heap

def noteFields : Keyed Value :=
  [("text", .string "on"), ("draft", .undefined), ("list", .array 0)]

/-- A note, whose list has absence and a great number. -/
def noteHeap : Heap :=
  ((Heap.empty.allocArray [.undefined, .bigint 12]).2.allocFields noteFields).2

def noteDocument : Json := .object [("text", .string "on"), ("list", .array [.null, .string "12"])]

theorem built_note : Heap.Built .empty noteHeap [.object 1] := by
  have list : Heap.Built .empty (Heap.empty.allocArray [.undefined, .bigint 12]).2 [.array 0] :=
    ((Heap.built_scalar _ rfl rfl).cons (Heap.built_scalar _ rfl rfl)).array
  have distinct : Keyed.Distinct noteFields := by
    show ["text", "draft", "list"].Nodup
    decide
  exact Heap.Built.object ((Heap.built_scalar _ rfl rfl).cons
    ((Heap.built_scalar _ rfl rfl).cons list)) distinct

theorem generic_noteDocument : noteDocument.Generic := by
  have distinct : ["text", "list"].Nodup := by decide
  refine .object distinct fun k j hm => ?_
  simp only [List.mem_cons, Prod.mk.injEq, List.not_mem_nil, or_false] at hm
  rcases hm with ⟨-, rfl⟩ | ⟨-, rfl⟩
  · exact .string "on"
  · refine .array fun j hj => ?_
    simp only [List.mem_cons, List.not_mem_nil, or_false] at hj
    rcases hj with rfl | rfl
    · exact .null
    · exact .string "12"

/-- The note is no JSON value: its draft is lost. -/
theorem json_projects_note :
    noteDocument.Generic ∧ noteHeap.Backs (.object 1) ∧ noteHeap.Acyclic (.object 1) ∧
    (noteHeap.ofJson noteDocument).2.toJson (noteHeap.ofJson noteDocument).1 =
      noteDocument.normalize ∧
    noteHeap.toJson (.object 1) =
      .object [("list", .array [.null, .string "12"]), ("text", .string "on")] ∧
    (noteHeap.ofJson (noteHeap.toJson (.object 1))).2.eq
      (noteHeap.ofJson (noteHeap.toJson (.object 1))).1 (.object 1) = false := by
  have backs := built_note.backs List.mem_cons_self
  have acyclic := built_note.acyclic List.mem_cons_self
  obtain ⟨documents, values⟩ := Heap.json_projects noteHeap
  refine ⟨generic_noteDocument, backs, acyclic, documents _ generic_noteDocument, rfl, ?_⟩
  refine Bool.eq_false_iff.mpr fun heq => ?_
  cases (values (.object 1) backs acyclic).2.1.mp heq with
  | object hs => cases hs "draft" .undefined rfl

end GuardedData
