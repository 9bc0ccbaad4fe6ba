import GuardedData.Proofs.Guard.Program

/-!
# Strict and lenient runs

`a.inMode mode` is an act whose wraps have a mode, with the catalogues that they
had. Two runs of the same acts, one in the strict mode and one in the lenient
mode, stay twins: the data, the tables and the numbers are the same, and so are
the views but for their modes (`Store.Twin`). What the acts give back differs in
one way only: what the strict run refuses the lenient one ignores
(`Answer.Twin`).
-/

namespace GuardedData

/-- The act, with its wraps in a mode. -/
def Act.inMode (mode : Catalogue → Options) : Act → Act
  | .wrap schema v o => .wrap schema v (mode o.catalogue)
  | a => a

inductive Answer where
  | nothing
  | wrapped (result : Except GuardError ViewId)
  | read (field : Field)
  | written (result : Except GuardError WriteOutcome)

namespace Store

/-- What an act gives back; nothing if it is on a view that is not alive. -/
def answer (s : Store) : Act → Answer
  | .wrap schema v o => .wrapped (s.wrap schema v o).result
  | .get id key => match s.view? id with
    | some v => .read (s.get v key).result
    | none => .nothing
  | .set id key x => match s.view? id with
    | some v => .written (s.set v key x).result
    | none => .nothing
  | _ => .nothing

end Store

def View.lenient (v : View) : View := { v with options := .lenient v.options.catalogue }

/-- The views of the first store are strict, the second has the same views in the lenient mode,
and else they are the same. -/
structure Store.Twin (s s' : Store) : Prop where
  heap : s'.heap = s.heap
  strict : ∀ id v, s.view? id = some v → v.options.quiet = false
  view? : ∀ id, s'.view? id = (s.view? id).map View.lenient
  tables : s'.tables = s.tables
  nextView : s'.nextView = s.nextView
  nextSession : s'.nextSession = s.nextSession

/-- What the same act gives back in a strict and in a lenient run, which go on with the stores
`s` and `s'`. -/
inductive Answer.Twin (s s' : Store) : Answer → Answer → Prop where
  | nothing : Twin s s' .nothing .nothing
  | wrapped (result : Except GuardError ViewId) : Twin s s' (.wrapped result) (.wrapped result)
  | value (x : Value) : Twin s s' (.read (.value x)) (.read (.value x))
  | view {id : ViewId} {v w : View} : s.view? id = some v → s'.view? id = some w →
      w.target = v.target → w.schema = v.schema →
      Twin s s' (.read (.view id)) (.read (.view id))
  | committed : Twin s s' (.written (.ok .committed)) (.written (.ok .committed))
  /-- A value that does not match is refused by the one and ignored by the other. -/
  | mismatch (field : String) (cause : Mismatch) :
      Twin s s' (.written (.error (.rejected field cause))) (.written (.ok .ignored))
  | invalidKey (key target : String) : Twin s s' (.written (.error (.invalidKey key target)))
      (.written (.error (.invalidKey key target)))
  | outOfBounds (index length : Nat) :
      Twin s s' (.written (.error (.indexOutOfBounds index length)))
        (.written (.error (.indexOutOfBounds index length)))

namespace Store

section
variable {s s' : Store} {v : View} {id : ViewId}

theorem twin_ofHeap (h : Heap) : Twin (ofHeap h) (ofHeap h) := by
  have none : ∀ id, (ofHeap h).view? id = none := fun id => by simp [ofHeap, Store.view?]
  refine ⟨rfl, fun id v e => ?_, fun id => ?_, rfl, rfl, rfl⟩
  · rw [none] at e
    cases e
  · rw [none]
    rfl

theorem Twin.change (ht : s.Twin s') (f : Heap → Heap) :
    Twin { s with heap := f s.heap } { s' with heap := f s'.heap } :=
  ⟨congrArg f ht.heap, ht.strict, ht.view?, ht.tables, ht.nextView, ht.nextSession⟩

theorem Twin.isAlive (ht : s.Twin s') : s'.isAlive = s.isAlive := by
  funext id
  rw [isAlive_eq, isAlive_eq, ht.view?, Option.isSome_map]

theorem Twin.table (ht : s.Twin s') (session : SessionId) : s'.table session = s.table session :=
  table_of_tables_eq ht.tables session

theorem Twin.lookup? (ht : s.Twin s') (session : SessionId) (t : Handle) :
    s'.lookup? session t = s.lookup? session t := by
  unfold Store.lookup?
  rw [ht.table, ht.heap]
  cases (s.table session)[s.heap.address t.ref]? with
  | none => rfl
  | some id =>
    dsimp only
    rw [ht.view?]
    cases s.view? id <;> rfl

/-! ## Views -/

theorem Twin.hold (ht : s.Twin s') (i : ViewId) : (s.hold i).Twin (s'.hold i) where
  heap := by rw [heap_hold, heap_hold, ht.heap]
  strict id w e := by
    obtain ⟨v, hv, same⟩ := same_of_view?_hold e
    rw [same.options]
    exact ht.strict id v hv
  view? id := by
    rw [view?_hold, view?_hold, ht.view?, ht.view?, Option.map_map]
    split
    · rw [Option.map_map]
      rfl
    · rfl
  tables := by rw [tables_hold, tables_hold, ht.tables]
  nextView := by rw [nextView_hold, nextView_hold, ht.nextView]
  nextSession := by rw [nextSession_hold, nextSession_hold, ht.nextSession]

theorem Twin.release (ht : s.Twin s') (i : ViewId) : (s.release i).Twin (s'.release i) where
  heap := by rw [heap_release, heap_release, ht.heap]
  strict id w e := by
    obtain ⟨v, hv, same⟩ := same_of_view?_release e
    rw [same.options]
    exact ht.strict id v hv
  view? id := by
    rw [view?_release, view?_release, ht.view?, ht.view?]
    split
    · rw [Option.bind_map, Option.map_bind]
      refine Option.bind_congr fun v _ => ?_
      by_cases hh : v.holders ≤ 1
      · simp [View.lenient, hh]
      · simp [View.lenient, hh]
    · rfl
  tables := by rw [tables_release, tables_release, ht.tables]
  nextView := by rw [nextView_release, nextView_release, ht.nextView]
  nextSession := by rw [nextSession_release, nextSession_release, ht.nextSession]

theorem Twin.addRoot (ht : s.Twin s') (hv : v.options.quiet = false) :
    (s.addRoot v).2.Twin (s'.addRoot v.lenient).2 where
  heap := ht.heap
  strict id w e := by
    rw [view?_addRoot] at e
    split at e
    · rw [← Option.some.inj e]
      exact hv
    · exact ht.strict id w e
  view? id := by
    rw [view?_addRoot, view?_addRoot, ht.nextView, ht.view?]
    split <;> rfl
  tables := ht.tables
  nextView := congrArg (· + 1) ht.nextView
  nextSession := ht.nextSession

theorem Twin.addNested (ht : s.Twin s') (hv : v.options.quiet = false) :
    (s.addNested v).2.Twin (s'.addNested v.lenient).2 where
  heap := ht.heap
  strict := (ht.addRoot hv).strict
  view? := (ht.addRoot hv).view?
  tables := by
    simp only [Store.addNested, ht.isAlive, ht.table, ht.heap, ht.tables, ht.nextView, View.lenient]
  nextView := (ht.addRoot hv).nextView
  nextSession := ht.nextSession

/-! ## Operations -/

theorem Twin.wrap (ht : s.Twin s') (schema : Schema) (x : Value) (c : Catalogue) :
    (s'.wrap schema x (.lenient c)).result = (s.wrap schema x (.strict c)).result ∧
      (s.wrap schema x (.strict c)).store.Twin (s'.wrap schema x (.lenient c)).store := by
  unfold Store.wrap
  cases x.handle? with
  | none => exact ⟨rfl, ht⟩
  | some t =>
    have next : Twin { s with nextSession := s.nextSession + 1 }
        { s' with nextSession := s'.nextSession + 1 } :=
      ⟨ht.heap, ht.strict, ht.view?, ht.tables, ht.nextView, congrArg (· + 1) ht.nextSession⟩
    have root := next.addRoot (v := ⟨t, schema, s.nextSession, .strict c, 1⟩) rfl
    refine ⟨congrArg Except.ok ht.nextView, ?_⟩
    rw [ht.nextSession]
    rw [ht.nextSession] at root
    exact root

theorem Twin.get (ht : s.Twin s') (hv : v.options.quiet = false) (key : Key) :
    (s'.get v.lenient key).result = (s.get v key).result ∧
      (s.get v key).store.Twin (s'.get v.lenient key).store := by
  have hslot : s'.heap.slot v.lenient.target key = s.heap.slot v.target key := by
    rw [ht.heap]
    rfl
  have hlookup : ∀ t, s'.lookup? v.lenient.session t = s.lookup? v.session t :=
    ht.lookup? v.session
  cases hr : (s.heap.slot v.target key).handle? with
  | none =>
    simp only [Store.get, hslot, hr]
    exact ⟨trivial, ht⟩
  | some t =>
    cases hl : s.lookup? v.session t with
    | some id =>
      simp only [Store.get, hslot, hr, hlookup, hl]
      exact ⟨trivial, ht.hold id⟩
    | none =>
      simp only [Store.get, hslot, hr, hlookup, hl]
      exact ⟨congrArg Field.view ht.nextView, ht.addNested hv⟩

theorem checkWritable_eq_error {h : Heap} {t : Handle} {key : Key} {e : GuardError}
    (he : checkWritable h t key = .error e) :
    (∃ k target, e = .invalidKey k target) ∨ ∃ i n, e = .indexOutOfBounds i n := by
  unfold checkWritable at he
  split at he
  · cases he
  · split at he
    · exact .inl ⟨_, _, (Except.error.inj he).symm⟩
    · dsimp only at he
      split at he
      · exact .inr ⟨_, _, (Except.error.inj he).symm⟩
      · cases he

theorem Twin.set (ht : s.Twin s') (hv : v.options.quiet = false) (key : Key) (x : Value) :
    Answer.Twin (s.set v key x).store (s'.set v.lenient key x).store
        (.written (s.set v key x).result) (.written (s'.set v.lenient key x).result) ∧
      (s.set v key x).store.Twin (s'.set v.lenient key x).store := by
  have hquiet : v.lenient.options.quiet = true := rfl
  unfold Store.set
  rw [ht.heap, show v.lenient.target = v.target from rfl]
  cases hw : checkWritable s.heap v.target key with
  | error e =>
    refine ⟨?_, ht⟩
    rcases checkWritable_eq_error hw with ⟨k, target, rfl⟩ | ⟨i, n, rfl⟩
    · exact .invalidKey k target
    · exact .outOfBounds i n
  | ok u =>
    dsimp only
    rw [show v.lenient.slotSchema key = v.slotSchema key from rfl,
      show v.lenient.options.catalogue = v.options.catalogue from rfl]
    cases check v.options.catalogue s.heap (v.slotSchema key) x with
    | error m =>
      dsimp only
      rw [hv, hquiet]
      exact ⟨.mismatch _ m, ht⟩
    | ok u =>
      have changed := ht.change fun h => h.setSlot v.target key x
      rw [ht.heap] at changed
      exact ⟨.committed, changed⟩

/-! ## Runs -/

theorem Twin.act (ht : s.Twin s') (hn : s.Numbered) (a : Act) :
    (s.act (a.inMode .strict)).Twin (s'.act (a.inMode .lenient)) ∧
      Answer.Twin (s.act (a.inMode .strict)) (s'.act (a.inMode .lenient))
        (s.answer (a.inMode .strict)) (s'.answer (a.inMode .lenient)) := by
  cases a with
  | newObject address p => exact ⟨ht.change fun h => (h.allocObjectAt address p).2, .nothing⟩
  | newArray address items => exact ⟨ht.change fun h => (h.allocArrayAt address items).2, .nothing⟩
  | newFunction name body => exact ⟨ht.change fun h => (h.allocFunction name body).2, .nothing⟩
  | putObject r p => exact ⟨ht.change fun h => h.setObject r p, .nothing⟩
  | putArray r items => exact ⟨ht.change fun h => h.setArray r items, .nothing⟩
  | keep x => exact ⟨ht, .nothing⟩
  | discard i => exact ⟨ht, .nothing⟩
  | hold id => exact ⟨ht.hold id, .nothing⟩
  | release id => exact ⟨ht.release id, .nothing⟩
  | wrap schema x o =>
    obtain ⟨hr, hs⟩ := ht.wrap schema x o.catalogue
    refine ⟨hs, ?_⟩
    simp only [Act.inMode, answer, hr]
    exact .wrapped _
  | get id key =>
    simp only [Act.inMode, Store.act, answer, ht.view?]
    cases hv : s.view? id with
    | none => exact ⟨ht, .nothing⟩
    | some v =>
      obtain ⟨hr, hs⟩ := ht.get (ht.strict id v hv) key
      refine ⟨hs, ?_⟩
      simp only [Option.map_some, hr]
      cases hf : (s.get v key).result with
      | value x => exact .value x
      | view i =>
        obtain ⟨w, _, hw, _⟩ := view?_of_get hn hf
        exact .view (w := w.lenient) hw (by rw [hs.view?, hw]; rfl) rfl rfl
  | set id key x =>
    simp only [Act.inMode, Store.act, answer, ht.view?]
    cases hv : s.view? id with
    | none => exact ⟨ht, .nothing⟩
    | some v => exact (ht.set (ht.strict id v hv) key x).symm

theorem Twin.after (ht : s.Twin s') (hn : s.Numbered) (acts : List Act) :
    (s.after (acts.map (Act.inMode .strict))).Twin (s'.after (acts.map (Act.inMode .lenient))) ∧
      (s.after (acts.map (Act.inMode .strict))).Numbered := by
  induction acts generalizing s s' with
  | nil => exact ⟨ht, hn⟩
  | cons a acts ih => exact ih (ht.act hn a).1 (hn.act _)

/-- Over the same data, a strict and a lenient run of any acts stay twins at every step, and what
the next act gives back is the same in both, but that the one refuses what the other ignores. -/
theorem twin_after (h : Heap) (acts : List Act) :
    let s := (ofHeap h).after (acts.map (Act.inMode .strict))
    let s' := (ofHeap h).after (acts.map (Act.inMode .lenient))
    s.Twin s' ∧ ∀ a : Act, Answer.Twin (s.act (a.inMode .strict)) (s'.act (a.inMode .lenient))
      (s.answer (a.inMode .strict)) (s'.answer (a.inMode .lenient)) := by
  obtain ⟨ht, hn⟩ := (twin_ofHeap h).after (numbered_ofHeap h) acts
  exact ⟨ht, fun a => (ht.act hn a).2⟩

end

end Store

end GuardedData
