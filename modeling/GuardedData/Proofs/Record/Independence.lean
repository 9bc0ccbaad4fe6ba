import GuardedData.Proofs.Guard.Sharing
import GuardedData.Proofs.Record.Building

/-!
# Independence of records

A program builds records with one factory and reads and writes through their
views. `R.has i t` says that the object or array `t` was put into the record of
session `i`: it is the record itself, was in its defaults or data when it was
built, or in a value that a write stored. While what is put into records is
`Separate`, and what is nested in the defaults is not written to (`Apart`),
records share no more than that, and the defaults stay as they are
(`Independent`).
-/

namespace GuardedData

/-- One act of a program that uses the records of a factory. -/
inductive RecordAct where
  | plain (a : Act)
  | build (data : Value)

namespace RecordAct

def on (f : RecordFactory) (s : Store) : RecordAct → Store
  | plain a => s.act a
  | build data => (f.build s data).store

/-- The act makes new data or a record; a read or a write does not. -/
def makes : RecordAct → Bool
  | plain (.newObject ..) | plain (.newArray ..) | plain (.newFunction ..) | build _ => true
  | _ => false

end RecordAct

/-- A store, and what was ever put into the record of each session. -/
structure Records where
  store : Store
  has : SessionId → Handle → Prop

namespace Records

def initial (h : Heap) : Records := ⟨.ofHeap h, fun _ _ => False⟩

section
variable (f : RecordFactory) (h : Heap)

/-- What makes up a new record: itself, and what is nested in the defaults and in the data. -/
def Brings (s : Store) (data : Value) (t : Handle) : Prop :=
  t = .object s.heap.next ∨ h.Nested f.defaults t ∨ s.heap.Nested data t

/-- What the act puts into the record of a session. The factory was made over the heap `h`. -/
def Puts (R : Records) : RecordAct → SessionId → Handle → Prop
  | .build data, i, t => (f.build R.store data).result.isOk ∧ i = R.store.nextSession ∧
      Brings f h R.store data t
  | .plain (.set id key x), i, t => ∃ v, R.store.view? id = some v ∧
      (R.store.set v key x).result = .ok .committed ∧ i = v.session ∧ R.store.heap.Graph x t
  | _, _, _ => False

def act (R : Records) (a : RecordAct) : Records :=
  ⟨a.on f R.store, fun i t => R.has i t ∨ R.Puts f h a i t⟩

def after (R : Records) (acts : List RecordAct) : Records := acts.foldl (act f h) R

/-- The value is there, and shares with the defaults and with other records than that of the
session only what is nested in the defaults. -/
structure Separate (R : Records) (own : SessionId) (x : Value) : Prop where
  known : ∀ t, R.store.heap.Graph x t → t.ref < R.store.heap.next
  defaults : ∀ t, R.store.heap.Graph x t → h.Graph f.defaults t → h.Nested f.defaults t
  others : ∀ t i, R.store.heap.Graph x t → R.has i t → i ≠ own → h.Nested f.defaults t

/-- Records are built from separate data and changed only through their views, by writes of
separate values, and not in what is nested in the defaults. -/
def Apart (R : Records) : RecordAct → Prop
  | .build data => R.Separate f h R.store.nextSession data
  | .plain (.set id key x) => ∀ v, R.store.view? id = some v →
      (R.store.set v key x).result = .ok .committed →
        ¬ h.Nested f.defaults v.target ∧ R.Separate f h v.session x
  | .plain (.putObject ..) | .plain (.putArray ..) | .plain (.wrap ..) => False
  | .plain _ => True

/-- Each act obeys the rule when its turn comes. -/
def AllApart : Records → List RecordAct → Prop
  | _, [] => True
  | R, a :: acts => R.Apart f h a ∧ AllApart (R.act f h a) acts

/-- Records share no more with the defaults and with each other than what is nested in the
defaults, which are as they were. -/
structure Independent (R : Records) : Prop where
  below : ∀ t, h.Graph f.defaults t → t.ref < h.next
  next : h.next ≤ R.store.heap.next
  defaults : h.SameGraph R.store.heap f.defaults
  shared : ∀ i t, R.has i t → h.Graph f.defaults t → h.Nested f.defaults t
  apart : ∀ i j t, R.has i t → R.has j t → i ≠ j → h.Nested f.defaults t
  known : ∀ i t, R.has i t → t.ref < R.store.heap.next ∧ i < R.store.nextSession
  closed : ∀ i a st x t, R.has i a → R.store.heap.child? a st = some x → x.Holds t → R.has i t
  target : ∀ id v, R.store.view? id = some v → R.has v.session v.target

end

section
variable {f : RecordFactory} {h : Heap} {s : Store} {has : SessionId → Handle → Prop} {t : Handle}

theorem object_newObject (s : Store) (address : Nat) (p : Properties) (r : Ref) :
    (s.act (.newObject address p)).heap.object r =
      if s.heap.next = r then p else s.heap.object r := by
  have hset : (s.act (.newObject address p)).heap.object r =
      (s.heap.setObject s.heap.next p).object r := rfl
  rw [hset]
  split
  · next e => exact e ▸ s.heap.object_setObject_self _ p
  · next e => exact s.heap.object_setObject_ne e p

theorem array_newArray (s : Store) (address : Nat) (items : List Value) (r : Ref) :
    (s.act (.newArray address items)).heap.array r =
      if s.heap.next = r then items else s.heap.array r := by
  have hset : (s.act (.newArray address items)).heap.array r =
      (s.heap.setArray s.heap.next items).array r := rfl
  rw [hset]
  split
  · next e => exact e ▸ s.heap.array_setArray_self _ items
  · next e => exact s.heap.array_setArray_ne e items

theorem sameCell_newObject (address : Nat) (p : Properties) (ht : t.ref < s.heap.next) :
    s.heap.SameCell (s.act (.newObject address p)).heap t := by
  cases t with
  | object r => exact (object_newObject s address p r).trans (if_neg (Nat.ne_of_gt ht))
  | array r => rfl

theorem sameCell_newArray (address : Nat) (items : List Value) (ht : t.ref < s.heap.next) :
    s.heap.SameCell (s.act (.newArray address items)).heap t := by
  cases t with
  | object r => rfl
  | array r => exact (array_newArray s address items r).trans (if_neg (Nat.ne_of_gt ht))

theorem independent_initial (hdefaults : ∀ t, h.Graph f.defaults t → t.ref < h.next) :
    Independent f h (initial h) where
  below := hdefaults
  next := Nat.le_refl _
  defaults t _ := .refl h t
  shared _ _ ht := ht.elim
  apart _ _ _ ht := ht.elim
  known _ _ ht := ht.elim
  closed _ _ _ _ _ ha := ha.elim
  target id v e := by simp [initial, Store.ofHeap, Store.view?] at e

/-- Other views do no harm if what they stand for was put into the records of their sessions. -/
theorem Independent.views (I : Independent f h ⟨s, has⟩) {s' : Store} (hheap : s'.heap = s.heap)
    (hs : s.nextSession ≤ s'.nextSession)
    (hv : ∀ id w, s'.view? id = some w → has w.session w.target) : Independent f h ⟨s', has⟩ where
  below := I.below
  next := hheap ▸ I.next
  defaults := hheap ▸ I.defaults
  shared := I.shared
  apart := I.apart
  known i t ht := ⟨hheap ▸ (I.known i t ht).1, Nat.lt_of_lt_of_le (I.known i t ht).2 hs⟩
  closed := hheap ▸ I.closed
  target := hv

theorem Independent.lt_next (I : Independent f h ⟨s, has⟩) (ht : h.Graph f.defaults t) :
    t.ref < s.heap.next :=
  Nat.lt_of_lt_of_le (I.below t ht) I.next

/-- New cells do no harm: nothing that matters lies there. -/
theorem Independent.cells (I : Independent f h ⟨s, has⟩) {h' : Heap} (hnext : s.heap.next ≤ h'.next)
    (hcells : ∀ t : Handle, t.ref < s.heap.next → s.heap.SameCell h' t) :
    Independent f h ⟨{ s with heap := h' }, has⟩ where
  below := I.below
  next := Nat.le_trans I.next hnext
  defaults t ht := (I.defaults t ht).trans (hcells t (I.lt_next ht))
  shared := I.shared
  apart := I.apart
  known i t ht := ⟨Nat.lt_of_lt_of_le (I.known i t ht).1 hnext, (I.known i t ht).2⟩
  closed i a st x t ha hc := by
    rw [(hcells a (I.known i a ha).1).child?] at hc
    exact I.closed i a st x t ha hc
  target := I.target

/-- What is separate may be put into a record, with all that it holds. -/
theorem Independent.grow (I : Independent f h ⟨s, has⟩) {own : SessionId} {G : Handle → Prop}
    (hown : own < s.nextSession) (hknown : ∀ t, G t → t.ref < s.heap.next)
    (hshared : ∀ t, G t → h.Graph f.defaults t → h.Nested f.defaults t)
    (hapart : ∀ t i, G t → has i t → i ≠ own → h.Nested f.defaults t)
    (hclosed : ∀ a st x t, G a → s.heap.child? a st = some x → x.Holds t → G t ∨ has own t) :
    Independent f h ⟨s, fun i t => has i t ∨ (i = own ∧ G t)⟩ where
  below := I.below
  next := I.next
  defaults := I.defaults
  shared i t ht hd := by
    rcases ht with ht | ⟨-, ht⟩
    · exact I.shared i t ht hd
    · exact hshared t ht hd
  apart i j t hi hj hij := by
    rcases hi with hi | ⟨rfl, hi⟩
    · rcases hj with hj | ⟨rfl, hj⟩
      · exact I.apart i j t hi hj hij
      · exact hapart t i hj hi hij
    · rcases hj with hj | ⟨rfl, hj⟩
      · exact hapart t j hi hj hij.symm
      · exact absurd rfl hij
  known i t ht := by
    rcases ht with ht | ⟨rfl, ht⟩
    · exact I.known i t ht
    · exact ⟨hknown t ht, hown⟩
  closed i a st x t ha hc hh := by
    rcases ha with ha | ⟨rfl, ha⟩
    · exact .inl (I.closed i a st x t ha hc hh)
    · exact (hclosed a st x t ha hc hh).symm.imp_right fun ht => ⟨rfl, ht⟩
  target id v e := .inl (I.target id v e)

/-- A write through a view, not in what is nested in the defaults, of a value that was put into its
record before. -/
theorem Independent.write (I : Independent f h ⟨s, has⟩) {id : ViewId} {v : View} {key : Key}
    {st : PathStep} {x : Value} (hv : s.view? id = some v) (hw : s.heap.Writable v.target key st)
    (htarget : ¬ h.Nested f.defaults v.target) (hx : ∀ t, x.Holds t → has v.session t) :
    Independent f h ⟨{ s with heap := s.heap.setSlot v.target key x }, has⟩ where
  below := I.below
  next := (s.heap.addresses_setSlot v.target key x).1 ▸ I.next
  defaults t ht := by
    have hne : v.target ≠ t := fun e =>
      htarget (I.shared v.session v.target (I.target id v hv) (e ▸ ht))
    exact (I.defaults t ht).trans (Heap.sameCell_setSlot hne x)
  shared := I.shared
  apart := I.apart
  known i t ht := ⟨(s.heap.addresses_setSlot v.target key x).1 ▸ (I.known i t ht).1,
    (I.known i t ht).2⟩
  closed i a st' y t ha hc hh := by
    rcases Heap.child?_setSlot_cases hw hc with ⟨rfl, -, rfl⟩ | ⟨-, hc⟩
    -- Another record that has the target shares it, so the target is nested in the defaults.
    · by_cases hi : i = v.session
      · exact hi ▸ hx t hh
      · exact absurd (I.apart i v.session v.target ha (I.target id v hv) hi) htarget
    · exact I.closed i a st' y t ha hc hh
  target := I.target

end

section
variable {f : RecordFactory} {h : Heap} {R : Records} {t : Handle}

theorem act_of_not_puts {a : RecordAct} (ha : ∀ i t, ¬ R.Puts f h a i t) :
    R.act f h a = ⟨a.on f R.store, R.has⟩ := by
  have e : (fun i t => R.has i t ∨ R.Puts f h a i t) = R.has := by
    funext i t
    exact propext (or_iff_left (ha i t))
  rw [act, e]

theorem act_of_puts {a : RecordAct} {own : SessionId} {G : Handle → Prop}
    (ha : ∀ i t, R.Puts f h a i t ↔ i = own ∧ G t) :
    R.act f h a = ⟨a.on f R.store, fun i t => R.has i t ∨ (i = own ∧ G t)⟩ := by
  simp only [Records.act, ha]

/-- An act that leaves the data as they are, and wraps nothing. -/
theorem Independent.look (I : Independent f h R) {a : Act} (hp : ∀ i t, ¬ R.Puts f h (.plain a) i t)
    (hw : ∀ schema x o, a ≠ .wrap schema x o) (hheap : (R.store.act a).heap = R.store.heap) :
    Independent f h (R.act f h (.plain a)) := by
  rw [act_of_not_puts hp]
  refine I.views hheap (R.store.counters_le_act a).2 fun id w e => ?_
  cases Store.origin_of_act e with
  | kept v hv same =>
    rw [same.session, same.target]
    exact I.target id v hv
  | read i v key st _ hv _ _ hc _ e _ =>
    rw [e]
    exact I.closed _ _ _ _ _ (I.target i v hv) hc (.self _)
  | wrapped schema o ea _ _ _ _ => exact absurd ea (hw _ _ _)

/-- A write is committed at a slot of a live view, or does nothing. -/
theorem act_set_cases (s : Store) (id : ViewId) (key : Key) (x : Value) :
    (s.act (.set id key x) = s ∧
      ∀ v, s.view? id = some v → (s.set v key x).result ≠ .ok .committed) ∨
    ∃ v st, s.view? id = some v ∧ s.heap.Writable v.target key st ∧
      (s.set v key x).result = .ok .committed ∧
      s.act (.set id key x) = { s with heap := s.heap.setSlot v.target key x } := by
  simp only [Store.act]
  cases hv : s.view? id with
  | none => exact .inl ⟨rfl, by simp⟩
  | some v =>
    rcases s.set_cases v key x with ⟨hs, hn⟩ | ⟨st, hw, -, hr, hs⟩
    · refine .inl ⟨hs, ?_⟩
      rintro w ⟨⟩
      exact hn
    · exact .inr ⟨v, st, rfl, hw, hr, hs⟩

theorem heap_act_get (s : Store) (id : ViewId) (key : Key) :
    (s.act (.get id key)).heap = s.heap := by
  simp only [Store.act]
  split
  · exact s.heap_get _ _
  · rfl

/-- A committed write of a separate value. -/
theorem Independent.set (I : Independent f h R) {id : ViewId} {key : Key} {x : Value} {v : View}
    {st : PathStep} (hv : R.store.view? id = some v) (hw : R.store.heap.Writable v.target key st)
    (hc : (R.store.set v key x).result = .ok .committed)
    (hs : R.store.act (.set id key x) =
      { R.store with heap := R.store.heap.setSlot v.target key x })
    (htarget : ¬ h.Nested f.defaults v.target) (hx : R.Separate f h v.session x) :
    Independent f h (R.act f h (.plain (.set id key x))) := by
  have hputs : ∀ i t, R.Puts f h (.plain (.set id key x)) i t ↔
      i = v.session ∧ R.store.heap.Graph x t := by
    intro i t
    constructor
    · rintro ⟨w, hw, -, hi, ht⟩
      obtain rfl := Option.some.inj (hv.symm.trans hw)
      exact ⟨hi, ht⟩
    · rintro ⟨hi, ht⟩
      exact ⟨v, hv, hc, hi, ht⟩
  have hon : RecordAct.on f R.store (.plain (.set id key x)) =
      { R.store with heap := R.store.heap.setSlot v.target key x } := hs
  have hgrown := I.grow (I.known _ _ (I.target id v hv)).2 hx.known hx.defaults hx.others
    fun a st y t ha hy hh => .inl (.inner ha hy hh)
  rw [act_of_puts hputs, hon]
  exact hgrown.write hv hw htarget fun t hh => .inr ⟨rfl, .held hh⟩

theorem sameCell_merge (f : RecordFactory) (s : Store) (data : Value)
    (ht : t.ref < s.heap.next) : s.heap.SameCell (f.merge s data).heap t :=
  sameCell_newObject _ _ ht

/-- The merged object, what is nested in the defaults, and what is nested in the data. -/
theorem child_merge (f : RecordFactory) {s : Store} {data x : Value} {st : PathStep}
    (hc : (f.merge s data).heap.child? (.object s.heap.next) st = some x) :
    ∃ k, (k, x) ∈ s.heap.fieldsOf f.defaults ∨ (k, x) ∈ s.heap.fieldsOf data := by
  rcases Program.child?_setObject_cases (h := s.heap) (r := s.heap.next)
    (p := s.heap.mergedFields f.defaults data) hc with ⟨-, k, hk⟩ | ⟨hne, -⟩
  · exact ⟨k, Heap.mem_of_mergedFields hk⟩
  · exact absurd rfl hne

/-- A new record holds nothing but what makes it up. -/
theorem Independent.brings_closed (I : Independent f h R) {data : Value}
    (hd : ∀ t, R.store.heap.Graph data t → t.ref < R.store.heap.next) {a : Handle} {st : PathStep}
    {x : Value} (ha : Brings f h R.store data a)
    (hc : (f.merge R.store data).heap.child? a st = some x) (hh : x.Holds t) :
    Brings f h R.store data t := by
  rcases ha with rfl | ha | ha
  · obtain ⟨k, hk | hk⟩ := child_merge f hc
    · rw [I.defaults.fieldsOf] at hk
      exact .inr (.inl ⟨_, hk, .held hh⟩)
    · exact .inr (.inr ⟨_, hk, .held hh⟩)
  · rw [(sameCell_merge f R.store data (I.lt_next ha.graph)).child?,
      (I.defaults a ha.graph).child?] at hc
    exact .inr (.inl (ha.child hc hh))
  · rw [(sameCell_merge f R.store data (hd a ha.graph)).child?] at hc
    exact .inr (.inr (ha.child hc hh))

/-- The new record, once it is wrapped, with all that makes it up. -/
theorem Independent.opened (I : Independent f h R) {data : Value}
    (hd : R.Separate f h R.store.nextSession data) :
    Independent f h ⟨f.opened R.store data,
      fun i t => R.has i t ∨ (i = R.store.nextSession ∧ Brings f h R.store data t)⟩ := by
  have hmerged : Independent f h ⟨f.merge R.store data, R.has⟩ :=
    I.cells (Nat.le_succ _) fun t ht => sameCell_merge f R.store data ht
  have hsession : Independent f h
      ⟨{ f.merge R.store data with nextSession := R.store.nextSession + 1 }, R.has⟩ :=
    hmerged.views rfl (Nat.le_succ _) I.target
  have hgrown : Independent f h
      ⟨{ f.merge R.store data with nextSession := R.store.nextSession + 1 },
        fun i t => R.has i t ∨ (i = R.store.nextSession ∧ Brings f h R.store data t)⟩ := by
    refine hsession.grow (Nat.lt_succ_self _) ?_ ?_ ?_ fun a st x t ha hc hh =>
      .inl (I.brings_closed hd.known ha hc hh)
    · rintro t (rfl | ht | ht)
      · exact Nat.lt_succ_self _
      · exact Nat.lt_succ_of_lt (I.lt_next ht.graph)
      · exact Nat.lt_succ_of_lt (hd.known t ht.graph)
    · rintro t (rfl | ht | ht) hg
      · exact absurd (I.lt_next hg) (Nat.lt_irrefl _)
      · exact ht
      · exact hd.defaults t ht.graph hg
    · rintro t i (rfl | ht | ht) hi hne
      · exact absurd (I.known i _ hi).1 (Nat.lt_irrefl _)
      · exact ht
      · exact hd.others t i ht.graph hi hne
  refine hgrown.views rfl (Nat.le_refl _) fun id w hw => ?_
  rw [RecordFactory.opened, Store.view?_addRoot] at hw
  split at hw
  · rw [← Option.some.inj hw]
    exact .inr ⟨rfl, .inl rfl⟩
  · exact .inl (I.target id w hw)

theorem Independent.build (I : Independent f h R) {data : Value}
    (hd : R.Separate f h R.store.nextSession data) : Independent f h (R.act f h (.build data)) := by
  rcases f.build_cases R.store data with ⟨m, -, -, hb⟩ | ⟨-, hb⟩
  · have hputs : ∀ i t, ¬ R.Puts f h (.build data) i t := by
      rintro i t ⟨hok, -⟩
      rw [hb] at hok
      cases hok
    have hon : RecordAct.on f R.store (.build data) = f.merge R.store data :=
      congrArg Step.store hb
    rw [act_of_not_puts hputs, hon]
    exact I.cells (Nat.le_succ _) fun t ht => sameCell_merge f R.store data ht
  · have hputs : ∀ i t, R.Puts f h (.build data) i t ↔
        i = R.store.nextSession ∧ Brings f h R.store data t := by
      intro i t
      simp [Puts, hb, Except.isOk, Except.toBool]
    have hon : RecordAct.on f R.store (.build data) = f.opened R.store data :=
      congrArg Step.store hb
    rw [act_of_puts hputs, hon]
    exact I.opened hd

/-- An act that only makes new cells. -/
theorem Independent.make (I : Independent f h R) {a : Act}
    (hp : ∀ i t, ¬ R.Puts f h (.plain a) i t) {h' : Heap}
    (hs : R.store.act a = { R.store with heap := h' })
    (hnext : R.store.heap.next ≤ h'.next)
    (hcells : ∀ t : Handle, t.ref < R.store.heap.next → R.store.heap.SameCell h' t) :
    Independent f h (R.act f h (.plain a)) := by
  have hon : RecordAct.on f R.store (.plain a) = { R.store with heap := h' } := hs
  rw [act_of_not_puts hp, hon]
  exact I.cells hnext hcells

theorem Independent.act (I : Independent f h R) {a : RecordAct}
    (ok : R.Apart f h a) : Independent f h (R.act f h a) := by
  cases a with
  | build data => exact I.build ok
  | plain a =>
    cases a with
    | newObject address p =>
      exact I.make (fun _ _ => id) rfl (Nat.le_succ _)
        fun t ht => sameCell_newObject address p ht
    | newArray address items =>
      exact I.make (fun _ _ => id) rfl (Nat.le_succ _)
        fun t ht => sameCell_newArray address items ht
    | newFunction name body =>
      exact I.make (fun _ _ => id) rfl (Nat.le_succ _) fun t _ => .refl _ t
    | putObject r p => exact ok.elim
    | putArray r items => exact ok.elim
    | wrap schema x o => exact ok.elim
    | keep x => exact I.look (fun _ _ => id) (by simp) rfl
    | discard i => exact I.look (fun _ _ => id) (by simp) rfl
    | get view key => exact I.look (fun _ _ => id) (by simp) (heap_act_get R.store view key)
    | hold view => exact I.look (fun _ _ => id) (by simp) (Store.heap_hold _ view)
    | release view => exact I.look (fun _ _ => id) (by simp) (Store.heap_release _ view)
    | set id key x =>
      rcases act_set_cases R.store id key x with ⟨hs, hn⟩ | ⟨v, st, hv, hw, hc, hs⟩
      · exact I.look (fun i t ⟨v, hv, hr, _⟩ => hn v hv hr) (by simp) (congrArg Store.heap hs)
      · obtain ⟨htarget, hx⟩ := ok v hv hc
        exact I.set hv hw hc hs htarget hx

theorem Independent.after (I : Independent f h R) {acts : List RecordAct}
    (ok : R.AllApart f h acts) : Independent f h (R.after f h acts) := by
  induction acts generalizing R with
  | nil => exact I
  | cons a acts ih => exact ih (I.act ok.1) ok.2

end

end Records

end GuardedData
