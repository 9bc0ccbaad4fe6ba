import GuardedData.Proofs.Guard.Writes

/-!
# Keys with two forms

`CanonicalIndex s` says digit by digit which names are also indices. Such a name
and its index are two forms of one key: no read and no write tells them apart,
but by the text of the key (`Key.Interchangeable`). Any other name addresses no
element of an array, and is interchangeable with no index.
-/

namespace GuardedData

/-! ## Canonical names -/

/-- At least one decimal digit, nothing else, no zero in front of another digit, and a number
below `2 ^ 64`. -/
structure CanonicalIndex (s : String) : Prop where
  nonempty : s ≠ ""
  digits : ∀ c ∈ s.toList, c.isDigit = true
  leading : s.toList.head? = some '0' → s = "0"
  bound : numberOfDigits s.toList < 2 ^ 64

theorem numberOfDigits_concat (ds : List Char) (d : Char) :
    numberOfDigits (ds ++ [d]) = 10 * numberOfDigits ds + digitValue d := by
  rw [numberOfDigits, List.foldl_concat, Nat.mul_comm]
  rfl

theorem digitChar_digitValue {c : Char} (hc : c.isDigit = true) :
    digitValue c < 10 ∧ (digitValue c).digitChar = c := by
  have hrange : 48 ≤ c.toNat ∧ c.toNat ≤ 57 := Char.isDigit_iff_toNat.mp hc
  have hvalue : digitValue c = c.toNat - 48 := rfl
  have hlt : digitValue c < 10 := by omega
  refine ⟨hlt, Char.toNat_inj.mp ?_⟩
  rw [Nat.toNat_digitChar_of_lt_ten hlt]
  omega

theorem eq_zero_of_head?_toDigits {n : Nat} (e : (Nat.toDigits 10 n).head? = some '0') : n = 0 := by
  induction n using Nat.strongRecOn with
  | ind n ih =>
    rw [Nat.toDigits_eq_if (by decide)] at e
    split at e
    · next hlt =>
      have hchar : n.digitChar.toNat = 48 := congrArg Char.toNat (Option.some.inj e)
      rw [Nat.toNat_digitChar_of_lt_ten hlt] at hchar
      omega
    · next hge =>
      rw [List.head?_append_of_ne_nil _ Nat.toDigits_ne_nil] at e
      have := ih (n / 10) (by omega) e
      omega

/-- Digits without a zero in front are those with which their number is written. -/
theorem toDigits_numberOfDigits {ds : List Char} (hne : ds ≠ [])
    (hd : ∀ c ∈ ds, c.isDigit = true) (h0 : ds.head? = some '0' → ds = ['0']) :
    Nat.toDigits 10 (numberOfDigits ds) = ds := by
  -- the last digit is the one that the number is written with last
  induction ds using List.reverseRecOn with
  | nil => exact absurd rfl hne
  | append_singleton ds d ih =>
    obtain ⟨hlt, hchar⟩ := digitChar_digitValue (hd d (List.mem_append_right _ List.mem_cons_self))
    have hlast : Nat.toDigits 10 (digitValue d) = [d] := by
      rw [Nat.toDigits_of_lt_base hlt, hchar]
    rw [numberOfDigits_concat]
    cases ds with
    | nil => simpa [numberOfDigits] using hlast
    | cons c cs =>
      have hc : c ≠ '0' := by
        rintro rfl
        have := h0 rfl
        simp at this
      have hfront : Nat.toDigits 10 (numberOfDigits (c :: cs)) = c :: cs :=
        ih (List.cons_ne_nil c cs) (fun x hx => hd x (List.mem_append_left _ hx))
          fun e => absurd (Option.some.inj e) hc
      have hpos : 0 < numberOfDigits (c :: cs) := by
        rcases Nat.eq_zero_or_pos (numberOfDigits (c :: cs)) with e | hpos
        · rw [e] at hfront
          exact absurd (List.cons.inj hfront).1.symm hc
        · exact hpos
      rw [← Nat.toDigits_append_toDigits (by decide) hpos hlt, hfront, hlast]

/-- The canonical names are the numerals of the indices, and spell them. -/
theorem canonicalIndex?_eq_some_iff_digits {s : String} {i : Nat} :
    canonicalIndex? s = some i ↔ CanonicalIndex s ∧ numberOfDigits s.toList = i := by
  rw [canonicalIndex?_eq_some]
  constructor
  · rintro ⟨hlt, rfl⟩
    have hnumber : numberOfDigits (toString i).toList = i := by
      rw [toList_toString_nat, numberOfDigits_toDigits]
    refine ⟨⟨fun e => ?_, fun c hc => ?_, fun e => ?_, hnumber.symm ▸ hlt⟩, hnumber⟩
    · have hnil : Nat.toDigits 10 i = [] := by rw [← toList_toString_nat, e]; rfl
      exact Nat.toDigits_ne_nil hnil
    · rw [toList_toString_nat] at hc
      exact Nat.isDigit_of_mem_toDigits (by decide) (by decide) hc
    · rw [toList_toString_nat] at e
      rw [eq_zero_of_head?_toDigits e]
      rfl
  · rintro ⟨hs, rfl⟩
    refine ⟨hs.bound, String.toList_injective ?_⟩
    rw [toList_toString_nat, toDigits_numberOfDigits _ hs.digits]
    · exact fun e => congrArg String.toList (hs.leading e)
    · exact fun e => hs.nonempty (String.toList_injective e)

theorem exists_canonicalIndex?_iff {s : String} :
    (∃ i, canonicalIndex? s = some i) ↔ CanonicalIndex s := by
  simp only [canonicalIndex?_eq_some_iff_digits, exists_and_left, exists_eq', and_true]

/-- The digits of a numeral that may have a plus sign. -/
def unsignedDigits : List Char → List Char
  | '+' :: ds => ds
  | ds => ds

/-- The number below `2 ^ 64` that a numeral stands for, a plus sign and zeros in front allowed. -/
def readNumeral? (s : String) : Option Nat :=
  let ds := unsignedDigits s.toList
  if ds ≠ [] ∧ ds.all Char.isDigit ∧ numberOfDigits ds < 2 ^ 64 then some (numberOfDigits ds)
  else none

/-- The index form of a name is the number that it stands for, if that number is written so. -/
theorem canonicalIndex?_eq_filter (s : String) :
    canonicalIndex? s = (readNumeral? s).filter fun i => toString i = s := by
  refine Option.ext fun i => ?_
  rw [Option.filter_eq_some_iff, decide_eq_true_iff]
  constructor
  · intro e
    obtain ⟨hs, hi⟩ := canonicalIndex?_eq_some_iff_digits.mp e
    obtain ⟨-, rfl⟩ := canonicalIndex?_eq_some.mp e
    have hunsigned : unsignedDigits (toString i).toList = (toString i).toList := by
      unfold unsignedDigits
      split
      · next ds e => exact absurd (hs.digits '+' (e ▸ List.mem_cons_self)) (by decide)
      · rfl
    have hne : (toString i).toList ≠ [] := fun e => hs.nonempty (String.toList_injective e)
    refine ⟨?_, rfl⟩
    rw [readNumeral?, hunsigned, if_pos ⟨hne, List.all_eq_true.mpr hs.digits, hs.bound⟩, hi]
  · rintro ⟨hread, e⟩
    rw [readNumeral?, Option.ite_none_right_eq_some] at hread
    obtain ⟨⟨-, -, hlt⟩, hi⟩ := hread
    exact canonicalIndex?_eq_some.mpr ⟨Option.some.inj hi ▸ hlt, e.symm⟩

/-! ## Two keys of one slot -/

def Event.withKey (text : String) : Event → Event
  | viewReused _ => viewReused text
  | viewCreated _ => viewCreated text
  | writeIgnored _ m => writeIgnored text m
  | writeRejected _ m => writeRejected text m
  | writeCommitted _ => writeCommitted text
  | e => e

def GuardError.withKey (text : String) : GuardError → GuardError
  | rejected _ m => rejected text m
  | invalidKey _ target => invalidKey text target
  | e => e

def Step.readWithKey (text : String) (step : Step Field) : Step Field :=
  ⟨step.result, step.store, step.events.map (Event.withKey text)⟩

def Step.writeWithKey (text : String) (step : Step (Except GuardError WriteOutcome)) :
    Step (Except GuardError WriteOutcome) :=
  ⟨step.result.mapError (GuardError.withKey text), step.store,
    step.events.map (Event.withKey text)⟩

namespace Key

/-- The keys address the same slots, under the same schemas, and all that reads and writes do is
the same in every state, but for the text of the key. -/
structure Interchangeable (k l : Key) : Prop where
  slot : ∀ (h : Heap) (t : Handle), h.slot t l = h.slot t k
  schema : ∀ v : View, v.slotSchema l = v.slotSchema k
  read : ∀ (s : Store) (v : View), s.get v l = (s.get v k).readWithKey l.render
  write : ∀ (s : Store) (v : View) (x : Value),
    s.set v l x = (s.set v k x).writeWithKey l.render

section
variable {k l : Key}

theorem toIndex?_congr (e : k.toName = l.toName) : l.toIndex? = k.toIndex? := by
  refine Option.ext fun i => ?_
  rw [toIndex?_eq_some_iff, toIndex?_eq_some_iff, Spells, Spells, e]

theorem slot_congr (e : k.toName = l.toName) (h : Heap) (t : Handle) :
    h.slot t l = h.slot t k := by
  cases t with
  | object r => simp only [Heap.slot, e]
  | array r => simp only [Heap.slot, toIndex?_congr e]

theorem setSlot_congr (e : k.toName = l.toName) (h : Heap) (t : Handle) (x : Value) :
    h.setSlot t l x = h.setSlot t k x := by
  cases t with
  | object r => simp only [Heap.setSlot, e]
  | array r => simp only [Heap.setSlot, toIndex?_congr e]

theorem slotSchema_congr (e : k.toName = l.toName) (v : View) :
    v.slotSchema l = v.slotSchema k := by
  simp only [View.slotSchema, e]

theorem get_congr (e : k.toName = l.toName) (s : Store) (v : View) :
    s.get v l = (s.get v k).readWithKey l.render := by
  have hslot : s.heap.slot v.target l = s.heap.slot v.target k := slot_congr e s.heap v.target
  cases hr : (s.heap.slot v.target k).handle? with
  | none =>
    simp only [Store.get, hslot, hr]
    rfl
  | some t =>
    cases hl : s.lookup? v.session t with
    | some id =>
      simp only [Store.get, hslot, hr, hl]
      rfl
    | none =>
      simp only [Store.get, hslot, hr, hl, slotSchema_congr e]
      rfl

theorem checkWritable_congr (e : k.toName = l.toName) (h : Heap) (t : Handle) :
    Store.checkWritable h t l =
      (Store.checkWritable h t k).mapError (GuardError.withKey l.render) := by
  unfold Store.checkWritable
  rw [toIndex?_congr e]
  cases t with
  | object r => rfl
  | array r =>
    cases k.toIndex? with
    | none => rfl
    | some i =>
      dsimp only
      split <;> rfl

theorem set_congr (e : k.toName = l.toName) (s : Store) (v : View) (x : Value) :
    s.set v l x = (s.set v k x).writeWithKey l.render := by
  unfold Store.set
  rw [checkWritable_congr e, slotSchema_congr e, setSlot_congr e]
  cases Store.checkWritable s.heap v.target k with
  | error err => rfl
  | ok u =>
    simp only [Except.mapError]
    cases check v.options.catalogue s.heap (v.slotSchema k) x with
    | ok u => rfl
    | error m =>
      dsimp only
      split <;> rfl

theorem interchangeable_iff : Interchangeable k l ↔ k.toName = l.toName := by
  refine ⟨fun hi => ?_, fun e => ⟨slot_congr e, slotSchema_congr e, get_congr e, set_congr e⟩⟩
  -- an object that has a field under the one name only
  have hslot := hi.slot (.setObject .empty 0 (Std.ExtTreeMap.insert ∅ k.toName .null)) (.object 0)
  by_contra hne
  simp [Heap.slot, Heap.field, hne] at hslot

/-- A name and an index have the same name form just when the index is the index form of the
name. -/
theorem toIndex?_name_iff {n : String} {i : UInt64} :
    (name n).toIndex? = some i.toNat ↔ (name n).toName = (index i).toName := by
  rw [toIndex?_eq_some_iff, Spells]
  exact and_iff_right i.toNat_lt

end

section
variable {s : Store} {v : View} {key : Key} {r : Ref}

theorem get_of_toIndex?_none (ht : v.target = .array r) (hk : key.toIndex? = none) :
    s.get v key = ⟨.value .undefined, s, []⟩ := by
  have hslot : s.heap.slot v.target key = .undefined := by
    simp only [ht, Heap.slot, hk]
  unfold Store.get
  rw [hslot]
  rfl

/-- Nothing is written to an array under a key without an index form, whatever the mode. -/
theorem set_of_toIndex?_none (ht : v.target = .array r) (hk : key.toIndex? = none) (x : Value) :
    s.set v key x = ⟨.error (.invalidKey key.render "array"), s, []⟩ := by
  have hw : Store.checkWritable s.heap v.target key = .error (.invalidKey key.render "array") := by
    simp only [ht, Store.checkWritable, hk]
  unfold Store.set
  rw [hw]

end

/-- A name has an index form just when it is the numeral of an index below `2 ^ 64`, that is, when
it is canonical. Then, and only then, the name and the index have the same name form and are
interchangeable. Under any other name an array has nothing to read, and every write fails. -/
theorem forms_interchangeable_iff (n : String) :
    (∀ i, (name n).toIndex? = some i ↔ i < 2 ^ 64 ∧ n = toString i) ∧
    ((∃ i, (name n).toIndex? = some i) ↔ CanonicalIndex n) ∧
    (∀ i : UInt64, (name n).toIndex? = some i.toNat ↔ (name n).toName = (index i).toName) ∧
    (∀ i : UInt64, (name n).toIndex? = some i.toNat ↔ Interchangeable (name n) (index i)) ∧
    (¬ CanonicalIndex n → ∀ (s : Store) (v : View) (r : Ref), v.target = .array r →
      s.get v (name n) = ⟨.value .undefined, s, []⟩ ∧
      ∀ x, s.set v (name n) x = ⟨.error (.invalidKey n "array"), s, []⟩) := by
  refine ⟨fun i => canonicalIndex?_eq_some, exists_canonicalIndex?_iff, fun i => toIndex?_name_iff,
    fun i => toIndex?_name_iff.trans interchangeable_iff.symm, fun hn s v r ht => ?_⟩
  have hnone : (name n).toIndex? = none := by
    refine Option.eq_none_iff_forall_ne_some.mpr fun i e => hn ?_
    exact exists_canonicalIndex?_iff.mp ⟨i, e⟩
  exact ⟨get_of_toIndex?_none ht hnone, set_of_toIndex?_none ht hnone⟩

/-- A lenient view of an array with one element. -/
def soleElement : Store × View :=
  (.ofHeap (.setArray .empty 0 [.bool true]), ⟨.array 0, .array .any, 0, .lenient .empty, 1⟩)

/-- The element is read under `0`, the name as well as the index. Under `00` nothing is read, and
nothing can be written. -/
theorem forms_interchangeable_iff_zeros :
    ((name "0").toIndex? = some 0 ∧ Interchangeable (name "0") (index 0) ∧
      soleElement.1.heap.slot soleElement.2.target (name "0") = .bool true) ∧
    soleElement.2.target = .array 0 ∧ ¬ CanonicalIndex "00" ∧
    soleElement.1.get soleElement.2 (name "00") = ⟨.value .undefined, soleElement.1, []⟩ ∧
    soleElement.1.set soleElement.2 (name "00") .null =
      ⟨.error (.invalidKey "00" "array"), soleElement.1, []⟩ := by
  have hpadded : ¬ CanonicalIndex "00" := fun hc => absurd (hc.leading rfl) (by decide)
  obtain ⟨-, -, -, -, harray⟩ := forms_interchangeable_iff "00"
  obtain ⟨hget, hset⟩ := harray hpadded soleElement.1 soleElement.2 0 rfl
  have hzero : (name "0").toIndex? = some 0 := by decide
  obtain ⟨-, -, -, hforms, -⟩ := forms_interchangeable_iff "0"
  exact ⟨⟨hzero, (hforms 0).mp hzero, by rfl⟩, rfl, hpadded, hget, hset .null⟩

end Key

end GuardedData
