import GuardedData.Proofs.Guard.Writes
import GuardedData.Proofs.Record.Independence

/-!
# Records built after reads and writes

A program is compared with itself without its reads and writes. `Untouched` says
that both made the same cells, and that they differ only in cells that were put
into records. What is put into a record later is in none of these, so the record
is the same in both (`SameRecord`).
-/

namespace GuardedData

/-- Both builds refuse for the same reason, or both give a view of the same data. -/
inductive SameRecord (a b : Step (Except RecordError ViewId)) : Prop where
  | refused (e : RecordError) : a.result = .error e → b.result = .error e → SameRecord a b
  | made {i j : ViewId} {v w : View} : a.result = .ok i → b.result = .ok j →
      a.store.view? i = some v → b.store.view? j = some w → v.target = w.target →
      v.schema = w.schema → v.options = w.options →
      a.store.heap.SameGraph b.store.heap v.target.toValue → SameRecord a b

namespace Records

def run (f : RecordFactory) (s : Store) (acts : List RecordAct) : Store :=
  acts.foldl (RecordAct.on f) s

/-- The store after those of the acts that make something. -/
def makings (f : RecordFactory) (s : Store) (acts : List RecordAct) : Store :=
  run f s (acts.filter RecordAct.makes)

/-- In the store the same cells were made, and they differ only where something was put into a
record. -/
structure Untouched (f : RecordFactory) (h : Heap) (R : Records) (s : Store) : Prop where
  next : s.heap.next = R.store.heap.next
  functions : s.heap.functions = R.store.heap.functions
  cells : ∀ t, (∀ i, R.has i t → h.Nested f.defaults t) → R.store.heap.SameCell s.heap t

section
variable {f : RecordFactory} {h : Heap} {R : Records} {s s' : Store} {t : Handle}

/-- Two stores in which the same object is made differ only where they did before. -/
theorem sameCell_newObject_both (hnext : s'.heap.next = s.heap.next) {address address' : Nat}
    {p : Properties} (same : t ≠ .object s.heap.next → s.heap.SameCell s'.heap t) :
    (s.act (.newObject address p)).heap.SameCell (s'.act (.newObject address' p)).heap t := by
  cases t with
  | array r => exact same (by simp)
  | object r =>
    show (s'.act _).heap.object r = (s.act _).heap.object r
    rw [object_newObject, object_newObject, hnext]
    split
    · rfl
    · next e => exact same fun e' => e (Handle.object.inj e').symm

theorem sameCell_newArray_both (hnext : s'.heap.next = s.heap.next) {address : Nat}
    {items : List Value} (same : s.heap.SameCell s'.heap t) :
    (s.act (.newArray address items)).heap.SameCell (s'.act (.newArray address items)).heap t := by
  cases t with
  | object r => exact same
  | array r =>
    show (s'.act _).heap.array r = (s.act _).heap.array r
    rw [array_newArray, array_newArray, hnext]
    split
    · rfl
    · exact same

theorem Untouched.start (f : RecordFactory) (h : Heap) :
    Untouched f h (initial h) (.ofHeap h) where
  next := rfl
  functions := rfl
  cells t _ := .refl h t

theorem Untouched.sameDefaults (U : Untouched f h R s) (I : Independent f h R) :
    R.store.heap.SameGraph s.heap f.defaults := by
  intro t ht
  rw [I.defaults.graph_iff] at ht
  exact U.cells t fun i hi => I.shared i t hi ht

/-- What may be put into a new record is the same in both. -/
theorem Untouched.sameData (U : Untouched f h R s) (I : Independent f h R) {data : Value}
    (hd : R.Separate f h R.store.nextSession data) : R.store.heap.SameGraph s.heap data := by
  intro t ht
  exact U.cells t fun i hi => hd.others t i ht hi (Nat.ne_of_lt (I.known i t hi).2)

/-- The same object is merged in both. -/
theorem Untouched.merge_eq (U : Untouched f h R s) (I : Independent f h R) {data : Value}
    (hd : R.Separate f h R.store.nextSession data) :
    s.heap.mergedFields f.defaults data = R.store.heap.mergedFields f.defaults data := by
  rw [Heap.mergedFields, Heap.mergedFields, (U.sameDefaults I).fieldsOf, (U.sameData I hd).fieldsOf]

/-- After the merge, the two still differ only where they did before. -/
theorem Untouched.sameCell_merge (U : Untouched f h R s) (I : Independent f h R) {data : Value}
    (hd : R.Separate f h R.store.nextSession data)
    (same : t ≠ .object R.store.heap.next → R.store.heap.SameCell s.heap t) :
    (f.merge R.store data).heap.SameCell (f.merge s data).heap t := by
  rw [RecordFactory.merge, RecordFactory.merge, U.merge_eq I hd]
  exact sameCell_newObject_both U.next same

/-- After a further act, if the cells that it changes were put into records. -/
theorem Untouched.further (U : Untouched f h R s) {a : RecordAct}
    (hnext : s'.heap.next = (a.on f R.store).heap.next)
    (hfunctions : s'.heap.functions = (a.on f R.store).heap.functions)
    (hcells : ∀ t, (∀ i, (R.act f h a).has i t → h.Nested f.defaults t) →
      R.store.heap.SameCell s.heap t → (a.on f R.store).heap.SameCell s'.heap t) :
    Untouched f h (R.act f h a) s' where
  next := hnext
  functions := hfunctions
  cells t ht := hcells t ht (U.cells t fun i hi => ht i (.inl hi))

/-- An act that leaves the data as they are. -/
theorem Untouched.look (U : Untouched f h R s) {a : RecordAct}
    (hheap : (a.on f R.store).heap = R.store.heap) : Untouched f h (R.act f h a) s :=
  U.further (hheap ▸ U.next) (hheap ▸ U.functions) fun _ _ same => hheap ▸ same

/-- A committed write, which counts only in one of them. -/
theorem Untouched.write (U : Untouched f h R s) (I : Independent f h R) {id : ViewId} {v : View}
    {key : Key} {x : Value} (hv : R.store.view? id = some v)
    (hheap : (R.store.act (.set id key x)).heap = R.store.heap.setSlot v.target key x)
    (htarget : ¬ h.Nested f.defaults v.target) :
    Untouched f h (R.act f h (.plain (.set id key x))) s := by
  have hs : (RecordAct.on f R.store (.plain (.set id key x))).heap =
      R.store.heap.setSlot v.target key x := hheap
  refine U.further ?_ ?_ fun t ht same => ?_
  · rw [hs, (R.store.heap.addresses_setSlot v.target key x).1, U.next]
  · rw [hs, R.store.heap.functions_setSlot, U.functions]
  · have hne : v.target ≠ t := by
      rintro rfl
      exact htarget (ht v.session (.inl (I.target id v hv)))
    rw [hs]
    exact (Heap.sameCell_setSlot hne x).symm.trans same

theorem Untouched.build (U : Untouched f h R s) (I : Independent f h R) {data : Value}
    (hd : R.Separate f h R.store.nextSession data) :
    Untouched f h (R.act f h (.build data)) (f.build s data).store := by
  have hs : (RecordAct.on f R.store (.build data)).heap = (f.merge R.store data).heap :=
    f.heap_build R.store data
  refine U.further ?_ ?_ fun t _ same => ?_
  · rw [hs, f.heap_build]
    exact congrArg Nat.succ U.next
  · rw [hs, f.heap_build]
    exact U.functions
  · rw [hs, f.heap_build]
    exact U.sameCell_merge I hd fun _ => same

theorem Untouched.act (U : Untouched f h R s) (I : Independent f h R) {a : RecordAct}
    (ok : R.Apart f h a) : Untouched f h (R.act f h a) (makings f s [a]) := by
  cases a with
  | build data => exact U.build I ok
  | plain a =>
    cases a with
    | newObject address p =>
      exact U.further (congrArg Nat.succ U.next) U.functions
        fun t _ same => sameCell_newObject_both U.next fun _ => same
    | newArray address items =>
      exact U.further (congrArg Nat.succ U.next) U.functions
        fun t _ same => sameCell_newArray_both U.next same
    | newFunction name body =>
      refine U.further (congrArg Nat.succ U.next) ?_ fun t _ same => ?_
      · show s.heap.functions.insert s.heap.next body =
          R.store.heap.functions.insert R.store.heap.next body
        rw [U.functions, U.next]
      · cases t <;> exact same
    | putObject r p => exact ok.elim
    | putArray r items => exact ok.elim
    | wrap schema x o => exact ok.elim
    | keep x => exact U.look rfl
    | discard i => exact U.look rfl
    | get view key => exact U.look (heap_act_get R.store view key)
    | hold view => exact U.look (Store.heap_hold _ view)
    | release view => exact U.look (Store.heap_release _ view)
    | set id key x =>
      rcases act_set_cases R.store id key x with ⟨hs, -⟩ | ⟨v, _, hv, -, hc, hs⟩
      · exact U.look (congrArg Store.heap hs)
      · exact U.write I hv (congrArg Store.heap hs) (ok v hv hc).1

theorem Untouched.after (U : Untouched f h R s) (I : Independent f h R) {acts : List RecordAct}
    (ok : R.AllApart f h acts) : Untouched f h (R.after f h acts) (makings f s acts) := by
  induction acts generalizing R s with
  | nil => exact U
  | cons a acts ih =>
    have e : makings f s (a :: acts) = makings f (makings f s [a]) acts := by
      rw [makings, makings, makings, run, run, run, ← List.foldl_append, ← List.filter_append,
        List.singleton_append]
    rw [e]
    exact ih (U.act I ok.1) (I.act ok.1) ok.2

theorem Untouched.sameMerged (U : Untouched f h R s) (I : Independent f h R) {data : Value}
    (hd : R.Separate f h R.store.nextSession data) :
    (f.merge R.store data).heap.SameGraph (f.merge s data).heap (.object R.store.heap.next) := by
  intro t ht
  have hb : Brings f h R.store data t := by
    refine ht.closed (fun u hu => ?_) fun a st x u ha hc hh =>
      I.brings_closed hd.known ha hc hh
    exact .inl (Handle.holds_toValue (t := .object R.store.heap.next) hu)
  refine U.sameCell_merge I hd fun hne => ?_
  rcases hb with e | hb | hb
  · exact absurd e hne
  · exact U.cells t fun i hi => I.shared i t hi hb.graph
  · exact U.sameData I hd t hb.graph

/-- A new record is the same in both, and so is what is reported of it. -/
theorem Untouched.sameRecord (U : Untouched f h R s) (I : Independent f h R)
    (hcatalogue : f.options.catalogue.Local) {data : Value}
    (hd : R.Separate f h R.store.nextSession data) :
    SameRecord (f.build R.store data) (f.build s data) ∧
      (f.build R.store data).events = (f.build s data).events := by
  have same := U.sameMerged I hd
  have hfunctions : (f.merge s data).heap.functions = (f.merge R.store data).heap.functions :=
    U.functions
  have hverdict : f.verdict s data = f.verdict R.store data := by
    rw [RecordFactory.verdict, RecordFactory.verdict, U.next]
    exact hcatalogue.check_congr hfunctions f.schema same
  have hreports : f.reports s data = f.reports R.store data := by
    rw [RecordFactory.reports, RecordFactory.reports, hverdict]
  rcases f.build_cases R.store data with ⟨m, hm, hq, hb⟩ | ⟨hok, hb⟩
  · rcases f.build_cases s data with ⟨m', hm', -, hb'⟩ | ⟨hok', -⟩
    · obtain rfl := Except.error.inj (hm'.symm.trans (hverdict.trans hm))
      rw [hb, hb']
      exact ⟨.refused (.invalid m') rfl rfl, rfl⟩
    · rw [hverdict, hm, hq] at hok'
      simp at hok'
  · rcases f.build_cases s data with ⟨m', hm', hq', -⟩ | ⟨-, hb'⟩
    · rw [← hverdict, hm', hq'] at hok
      simp at hok
    · rw [hb, hb', hreports]
      refine ⟨?_, rfl⟩
      refine .made rfl rfl (f.view?_opened R.store data) (f.view?_opened s data) ?_ rfl rfl ?_
      · rw [U.next]
      · exact same

/-- A live view reaches only what was put into its record. -/
theorem Independent.has_of_graph (I : Independent f h R) {id : ViewId} {v : View}
    (hv : R.store.view? id = some v) (ht : R.store.heap.Graph v.target.toValue t) :
    R.has v.session t := by
  refine ht.closed (fun u hu => ?_) fun a st x u ha hc hh => I.closed _ a st x u ha hc hh
  rw [Handle.holds_toValue hu]
  exact I.target id v hv

/-- A write, not in what is nested in the defaults, changes nothing that was put into another
record. -/
theorem Independent.sameCell_set (I : Independent f h R) {id : ViewId} {v : View} {key : Key}
    {x : Value} {i : SessionId} (hv : R.store.view? id = some v)
    (htarget : ¬ h.Nested f.defaults v.target) (ht : R.has i t) (hi : i ≠ v.session) :
    R.store.heap.SameCell (R.store.set v key x).store.heap t := by
  rcases R.store.set_cases v key x with ⟨hs, -⟩ | ⟨st, -, -, -, hs⟩
  · rw [hs]
    exact .refl _ t
  · have hne : v.target ≠ t := by
      rintro rfl
      exact htarget (I.apart i v.session v.target ht (I.target id v hv) hi)
    rw [hs]
    exact Heap.sameCell_setSlot hne x

/-- Records are independent, up to what is nested in the defaults. A program builds records from
separate data, and writes separate values through their views, but not in what is nested in the
defaults. Then the defaults never change; a view reaches only what was put into its record, and no
write changes anything that was put into another one; and a record that is built from separate
data is what it would be without all reads and writes. -/
theorem independent_of_apart {acts : List RecordAct} (hcatalogue : f.options.catalogue.Local)
    (hdefaults : ∀ t, h.Graph f.defaults t → t.ref < h.next)
    (ok : (initial h).AllApart f h acts) :
    let R := (initial h).after f h acts
    h.SameGraph R.store.heap f.defaults ∧
    (∀ id v t, R.store.view? id = some v → R.store.heap.Graph v.target.toValue t →
      R.has v.session t) ∧
    (∀ i j t, R.has i t → R.has j t → i ≠ j → h.Nested f.defaults t) ∧
    (∀ id v key x i t, R.store.view? id = some v → ¬ h.Nested f.defaults v.target → R.has i t →
      i ≠ v.session → R.store.heap.SameCell (R.store.set v key x).store.heap t) ∧
    (∀ data, R.Separate f h R.store.nextSession data →
      SameRecord (f.build R.store data) (f.build (makings f (.ofHeap h) acts) data) ∧
        (f.build R.store data).events = (f.build (makings f (.ofHeap h) acts) data).events) := by
  intro R
  have I : Independent f h R := (independent_initial hdefaults).after ok
  have U : Untouched f h R (makings f (.ofHeap h) acts) :=
    (Untouched.start f h).after (independent_initial hdefaults) ok
  refine ⟨I.defaults, fun id v t => I.has_of_graph, I.apart, ?_, ?_⟩
  · exact fun id v key x i t => I.sameCell_set
  · exact fun data hd => U.sameRecord I hcatalogue hd

end

/-! ## Records with a lamp -/

/-- A lamp that is on, and an object that holds it. -/
def lampHeap : Heap :=
  (((Store.ofHeap .empty).act (.newObject 0 (Std.ExtTreeMap.insert ∅ "on" (.bool true)))).act
    (.newObject 1 (Std.ExtTreeMap.insert ∅ "lamp" (.object 0)))).heap

/-- A record may have a lamp, which is on or off. -/
def lampField : String × Schema :=
  ("lamp", .optional (.object [("on", .literal (.bool true))]))

def lamps (defaults : Value) : RecordFactory := ⟨.object [lampField], defaults, .strict .empty⟩

/-- Accepts everything while the first lamp is on. -/
def whileLit : Catalogue := Catalogue.empty.register "lit" fun h _ =>
  match h.field (.object 0) "on" with
  | .bool b => b
  | _ => false

def litLamps : RecordFactory :=
  ⟨.object [lampField, ("lit", .tag "lit")], .undefined, .strict whileLit⟩

def lampOf (s : Store) (r : Ref) : Value := s.heap.field (s.heap.field (.object r) "lamp") "on"

/-- Switches a lamp off, through a nested view of its record. -/
def switchOff (record lamp : ViewId) : List RecordAct :=
  [.plain (.get record (.name "lamp")), .plain (.set lamp (.name "on") (.bool false))]

/-- The rules are needed. A lamp of the defaults is switched off through a record: the defaults
and the next record have it off, too. So does a record that was built from the same lamp, or into
which the same lamp was written. The defaults themselves change if they are written into a record.
A predicate that looks elsewhere refuses a record on account of a write to another. -/
theorem dark_of_sharedLamp :
    (let f := lamps (.object 1);
      let acts := [.plain (.newObject 2 ∅), .build (.object 2)] ++ switchOff 0 1 ++
        [.plain (.newObject 4 ∅)];
      let after := run f (.ofHeap lampHeap) acts;
      let before := makings f (.ofHeap lampHeap) acts;
      (lampOf before 1 = .bool true ∧ lampOf after 1 = .bool false) ∧
      (f.build before (.object 4)).result = .ok 1 ∧ (f.build after (.object 4)).result = .ok 2 ∧
      lampOf (f.build before (.object 4)).store 5 = .bool true ∧
      lampOf (f.build after (.object 4)).store 5 = .bool false) ∧
    (let f := lamps .undefined;
      let s := run f (.ofHeap lampHeap) [.build (.object 1), .build (.object 1)];
      lampOf s 3 = .bool true ∧ lampOf (run f s (switchOff 0 2)) 3 = .bool false) ∧
    (let f := lamps .undefined;
      let s := run f (.ofHeap lampHeap) [.build .undefined, .build .undefined,
        .plain (.set 0 (.name "lamp") (.object 0)), .plain (.set 1 (.name "lamp") (.object 0))];
      lampOf s 3 = .bool true ∧ lampOf (run f s (switchOff 0 2)) 3 = .bool false) ∧
    (let f := lamps (.object 0);
      let s := run f (.ofHeap lampHeap) [.build .undefined,
        .plain (.set 0 (.name "lamp") f.defaults)];
      s.heap.field f.defaults "on" = .bool true ∧
      (run f s (switchOff 0 1)).heap.field f.defaults "on" = .bool false) ∧
    (let acts := .build (.object 1) :: switchOff 0 1;
      (litLamps.build (makings litLamps (.ofHeap lampHeap) acts) .undefined).result = .ok 1 ∧
      (litLamps.build (run litLamps (.ofHeap lampHeap) acts) .undefined).result =
        .error (.invalid ⟨.kind, "lit", "undefined", [.field "lit"]⟩)) :=
  ⟨⟨⟨rfl, rfl⟩, rfl, rfl, rfl, rfl⟩, ⟨rfl, rfl⟩, ⟨rfl, rfl⟩, ⟨rfl, rfl⟩, rfl, rfl⟩

theorem eq_of_child?_single {h : Heap} {r : Ref} {k : String} {x y : Value} {st : PathStep}
    (e : h.object r = Std.ExtTreeMap.insert ∅ k y) (hc : h.child? (.object r) st = some x) :
    x = y := by
  cases st with
  | index i => cases hc
  | field k' =>
    simp only [Heap.child?, e, Std.ExtTreeMap.getElem?_insert] at hc
    split at hc
    · exact (Option.some.inj hc).symm
    · simp at hc

/-- What an object with a lamp holds. -/
theorem eq_of_graph_lamp {h : Heap} {r l : Ref} {b : Bool} {t : Handle}
    (hr : h.object r = Std.ExtTreeMap.insert ∅ "lamp" (.object l))
    (hl : h.object l = Std.ExtTreeMap.insert ∅ "on" (.bool b)) (ht : h.Graph (.object r) t) :
    t = .object r ∨ t = .object l := by
  refine ht.closed (G := fun t => t = .object r ∨ t = .object l) ?_ ?_
  · exact fun u hu => .inl (Handle.holds_toValue (t := .object r) hu)
  · rintro a st x u (rfl | rfl) hc hu
    · rw [eq_of_child?_single hr hc] at hu
      exact .inr (Handle.holds_toValue (t := .object l) hu)
    · rw [eq_of_child?_single hl hc] at hu
      exact absurd hu (Value.not_holds_bool b u)

theorem ref_lt_of_graph_lampHeap (t : Handle) (ht : lampHeap.Graph (.object 1) t) :
    t.ref < lampHeap.next := by
  rcases eq_of_graph_lamp (r := 1) (l := 0) rfl rfl ht with rfl | rfl
  · exact Nat.lt_succ_self 1
  · exact Nat.zero_lt_two

/-- A record with a lamp of its own, which is switched off. -/
def ownLamp : List RecordAct :=
  [.plain (.newObject 2 (Std.ExtTreeMap.insert ∅ "on" (.bool true))),
    .plain (.newObject 3 (Std.ExtTreeMap.insert ∅ "lamp" (.object 2))), .build (.object 3)] ++
    switchOff 0 1

/-- What is nested in the defaults lies below the new cells. -/
theorem not_graph_lampHeap {r : Ref} (hr : 2 ≤ r) : ¬ lampHeap.Graph (.object 1) (.object r) :=
  fun ht => Nat.not_lt_of_le hr (ref_lt_of_graph_lampHeap _ ht)

theorem not_graph_bool {h : Heap} {b : Bool} {t : Handle} : ¬ h.Graph (.bool b) t :=
  fun ht => ht.closed (G := fun _ => False) (fun u hu => Value.not_holds_bool b u hu)
    fun _ _ _ _ ha _ _ => ha

theorem allApart_ownLamp :
    (initial lampHeap).AllApart (lamps (.object 1)) lampHeap ownLamp := by
  refine ⟨trivial, trivial, ⟨?_, ?_, ?_⟩, trivial, ?_, trivial⟩
  · intro t ht
    rcases eq_of_graph_lamp (r := 3) (l := 2) rfl rfl ht with rfl | rfl
    · exact Nat.lt_succ_self 3
    · exact Nat.lt_add_of_pos_right Nat.zero_lt_two
  · intro t ht hd
    rcases eq_of_graph_lamp (r := 3) (l := 2) rfl rfl ht with rfl | rfl
    · exact absurd hd (not_graph_lampHeap (by decide))
    · exact absurd hd (not_graph_lampHeap (by decide))
  · rintro t i - ((hi | hi) | hi) -
    · exact hi.elim
    · exact hi.elim
    · exact hi.elim
  · intro v hv _
    obtain rfl := Option.some.inj hv
    exact ⟨fun ht => not_graph_lampHeap (Nat.le_refl 2) ht.graph,
      fun t ht => absurd ht not_graph_bool, fun t ht => absurd ht not_graph_bool,
      fun t i ht => absurd ht not_graph_bool⟩

/-- The lamp of the defaults stays on, and so does that of the next record. -/
theorem independent_of_apart_ownLamp :
    let R := (initial lampHeap).after (lamps (.object 1)) lampHeap ownLamp
    lampHeap.SameGraph R.store.heap (.object 1) ∧ lampOf R.store 4 = .bool false ∧
      lampOf ((lamps (.object 1)).build R.store .undefined).store 5 = .bool true ∧
      SameRecord ((lamps (.object 1)).build R.store .undefined) ((lamps (.object 1)).build
        (makings (lamps (.object 1)) (.ofHeap lampHeap) ownLamp) .undefined) := by
  intro R
  obtain ⟨same, -, -, -, built⟩ := independent_of_apart Catalogue.kindOnly_empty.isLocal
    ref_lt_of_graph_lampHeap allApart_ownLamp
  have fresh : R.Separate (lamps (.object 1)) lampHeap R.store.nextSession .undefined :=
    ⟨fun t ht => absurd ht Heap.not_graph_undefined, fun t ht => absurd ht Heap.not_graph_undefined,
      fun t i ht => absurd ht Heap.not_graph_undefined⟩
  exact ⟨same, rfl, rfl, (built .undefined fresh).1⟩

end Records

end GuardedData
