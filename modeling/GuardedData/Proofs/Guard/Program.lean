import GuardedData.Proofs.Guard.Access

/-!
# Programs that use guarded data

A program makes and changes objects and arrays, wraps them, reads and writes
through views, and takes and drops copies of values and views, in any order:
these are its acts. `Store.act` is the effect of an act on the store; an act on
a view that is not alive has none. A `Program` adds the values that are held,
and a record of the roots that were wrapped and of the nested views that reads
gave. `Runs ok P₀ P` says that acts which all obey the rule `ok` lead from `P₀`
to `P`. All that an act can do to a store is in `effect_of_act`; what becomes of
views, tables, numbers and the options of sessions follows from it.
-/

namespace GuardedData

inductive Act where
  /-- A new object at an address of the allocator's choice. -/
  | newObject (address : Nat) (p : Properties)
  | newArray (address : Nat) (items : List Value)
  | newFunction (name : String) (body : List Value → Value)
  /-- Gives an object other fields, past every view. -/
  | putObject (r : Ref) (p : Properties)
  | putArray (r : Ref) (items : List Value)
  /-- One more copy of a value. -/
  | keep (v : Value)
  /-- Drops a copy of a value. -/
  | discard (i : Nat)
  | wrap (schema : Schema) (v : Value) (options : Options)
  | get (view : ViewId) (key : Key)
  | set (view : ViewId) (key : Key) (v : Value)
  /-- One more copy of a view. -/
  | hold (view : ViewId)
  /-- Drops a copy of a view. -/
  | release (view : ViewId)

/-- The effect of an act on the store. -/
def Store.act (s : Store) : Act → Store
  | .newObject a p => { s with heap := (s.heap.allocObjectAt a p).2 }
  | .newArray a items => { s with heap := (s.heap.allocArrayAt a items).2 }
  | .newFunction name body => { s with heap := (s.heap.allocFunction name body).2 }
  | .putObject r p => { s with heap := s.heap.setObject r p }
  | .putArray r items => { s with heap := s.heap.setArray r items }
  | .keep _ | .discard _ => s
  | .wrap schema v o => (s.wrap schema v o).store
  | .get id key => match s.view? id with
    | some v => (s.get v key).store
    | none => s
  | .set id key x => match s.view? id with
    | some v => (s.set v key x).store
    | none => s
  | .hold id => s.hold id
  | .release id => s.release id

def Store.after (s : Store) (acts : List Act) : Store := acts.foldl act s

/-- A read that gave a nested view. -/
structure Read where
  /-- The view that was read, its target, and the key. -/
  reader : ViewId
  target : Handle
  key : Key
  result : ViewId
  /-- It was not alive before. -/
  fresh : Bool

/-- A store, the values that the program holds, the roots that it wrapped, and the reads that
gave it nested views. -/
structure Program where
  store : Store
  held : List Value
  roots : List ViewId
  reads : List Read

def Store.recordGet (s : Store) (id : ViewId) (key : Key) : List Read :=
  match s.view? id with
  | none => []
  | some v => match (s.get v key).result with
    | .view w => [⟨id, v.target, key, w, !s.isAlive w⟩]
    | .value _ => []

namespace Program

/-- The program that has a heap, but no values and no views yet. -/
def initial (h : Heap) : Program := ⟨.ofHeap h, [], [], []⟩

def act (P : Program) (a : Act) : Program where
  store := P.store.act a
  held := match a with
    | .newObject .. => .object P.store.heap.next :: P.held
    | .newArray .. => .array P.store.heap.next :: P.held
    | .newFunction name _ => .function ⟨name, P.store.heap.next⟩ :: P.held
    | .keep v => v :: P.held
    | .discard i => P.held.eraseIdx i
    | _ => P.held
  roots := match a with
    | .wrap schema v o => match (P.store.wrap schema v o).result with
      | .ok id => id :: P.roots
      | .error _ => P.roots
    | _ => P.roots
  reads := match a with
    | .get id key => P.store.recordGet id key ++ P.reads
    | _ => P.reads

def after (P : Program) (acts : List Act) : Program := acts.foldl act P

/-- Acts that obey a rule lead from one program to another. -/
inductive Runs (ok : Program → Act → Prop) (P₀ : Program) : Program → Prop where
  | start : Runs ok P₀ P₀
  | act {P : Program} (a : Act) : Runs ok P₀ P → ok P a → Runs ok P₀ (P.act a)

/-- Any acts at all lead from a heap without views to the program. -/
def Reached (h : Heap) (P : Program) : Prop := Runs (fun _ _ => True) (initial h) P

theorem Runs.mono {ok ok' : Program → Act → Prop} (ho : ∀ P a, ok P a → ok' P a)
    {P₀ P : Program} (h : Runs ok P₀ P) : Runs ok' P₀ P := by
  induction h with
  | start => exact .start
  | act a _ h ih => exact .act a ih (ho _ a h)

theorem reached_after {h : Heap} {P : Program} (hP : Reached h P) (acts : List Act) :
    Reached h (P.after acts) := by
  induction acts generalizing P with
  | nil => exact hP
  | cons a acts ih => exact ih (.act a hP trivial)

/-- What every act preserves holds at the end of a run if it holds at its start. -/
theorem Runs.invariant {ok : Program → Act → Prop} {P₀ P : Program} (I : Program → Prop)
    (h0 : I P₀) (step : ∀ P a, I P → ok P a → I (P.act a)) (h : Runs ok P₀ P) : I P := by
  induction h with
  | start => exact h0
  | act a _ ho ih => exact step _ a ih ho

end Program

/-! ## What an act does to the views -/

namespace Store

/-- What an act can do to a store. -/
inductive Effect (s : Store) (a : Act) : Prop where
  /-- It changes at most the data. -/
  | data (h : Heap) : s.act a = { s with heap := h } → Effect s a
  | held (i : ViewId) : s.act a = s.hold i → Effect s a
  | released (i : ViewId) : s.act a = s.release i → Effect s a
  /-- It is a read that makes a view, since the session knows none of the target. -/
  | read (i : ViewId) (v : View) (key : Key) (st : PathStep) (t : Handle) : a = .get i key →
      s.view? i = some v → v.target.step? key = some st →
      s.heap.child? v.target st = some t.toValue → s.lookup? v.session t = none →
      (s.get v key).result = .view s.nextView →
      s.act a = (s.addNested ⟨t, v.schema.inner st, v.session, v.options, 1⟩).2 → Effect s a
  /-- It is a wrap that makes a view. -/
  | wrapped (schema : Schema) (t : Handle) (o : Options) : a = .wrap schema t.toValue o →
      s.act a = ({ s with nextSession := s.nextSession + 1 }.addRoot
        ⟨t, schema, s.nextSession, o, 1⟩).2 → Effect s a

theorem effect_of_act (s : Store) (a : Act) : Effect s a := by
  cases a with
  | newObject address p => exact .data (s.heap.allocObjectAt address p).2 rfl
  | newArray address items => exact .data (s.heap.allocArrayAt address items).2 rfl
  | newFunction name body => exact .data (s.heap.allocFunction name body).2 rfl
  | putObject r p => exact .data (s.heap.setObject r p) rfl
  | putArray r items => exact .data (s.heap.setArray r items) rfl
  | keep x => exact .data s.heap rfl
  | discard i => exact .data s.heap rfl
  | wrap schema x o =>
    rcases s.wrap_cases schema x o with ⟨_, hs, _⟩ | ⟨t, rfl, _, hs⟩
    · exact .data s.heap (by rw [act, hs])
    · exact .wrapped schema t o rfl hs
  | get i key =>
    cases hv : s.view? i with
    | none => exact .data s.heap (by simp only [act, hv])
    | some v =>
      have e : s.act (.get i key) = (s.get v key).store := by simp only [act, hv]
      rcases s.get_cases v key with ⟨_, hg⟩ | ⟨t, j, _, _, hg⟩ | ⟨t, ht, hl, hg⟩
      · exact .data s.heap (by rw [e, hg])
      · exact .held j (by rw [e, hg])
      · obtain ⟨st, hst, hc⟩ := Heap.step?_of_slot ht
        exact .read i v key st t rfl hv hst hc hl (by rw [hg])
          (by rw [e, hg, View.slotSchema_eq hst])
  | set i key x =>
    cases hv : s.view? i with
    | none => exact .data s.heap (by simp only [act, hv])
    | some v =>
      have e : s.act (.set i key x) = (s.set v key x).store := by simp only [act, hv]
      rcases s.set_cases v key x with ⟨hs, _⟩ | ⟨_, _, _, _, hs⟩
      · exact .data s.heap (by rw [e, hs])
      · exact .data (s.heap.setSlot v.target key x) (by rw [e, hs])
  | hold i => exact .held i rfl
  | release i => exact .released i rfl

/-- How a view came about that is alive after an act. -/
inductive Origin (s : Store) (a : Act) (id : ViewId) (w : View) : Prop where
  /-- It was alive before. -/
  | kept (v : View) : s.view? id = some v → v.Same w → Origin s a id w
  | read (i : ViewId) (v : View) (key : Key) (st : PathStep) : a = .get i key →
      s.view? i = some v → id = s.nextView → v.target.step? key = some st →
      s.heap.child? v.target st = some w.target.toValue →
      (s.get v key).result = .view s.nextView →
      w = ⟨w.target, v.schema.inner st, v.session, v.options, 1⟩ →
      (s.act a).nextView = s.nextView + 1 → Origin s a id w
  | wrapped (schema : Schema) (o : Options) : a = .wrap schema w.target.toValue o →
      id = s.nextView → w = ⟨w.target, schema, s.nextSession, o, 1⟩ →
      (s.act a).nextView = s.nextView + 1 → (s.act a).nextSession = s.nextSession + 1 →
      Origin s a id w

theorem origin_of_act {s : Store} {a : Act} {id : ViewId} {w : View}
    (e : (s.act a).view? id = some w) : Origin s a id w := by
  cases s.effect_of_act a with
  | data h hs =>
    rw [hs] at e
    exact .kept w e (.refl w)
  | held i hs =>
    rw [hs] at e
    obtain ⟨u, hu, same⟩ := same_of_view?_hold e
    exact .kept u hu same
  | released i hs =>
    rw [hs] at e
    obtain ⟨u, hu, same⟩ := same_of_view?_release e
    exact .kept u hu same
  | read i v key st t ea hv hst hc _ hr hs =>
    rw [hs, view?_addNested] at e
    split at e
    · next hid =>
      obtain rfl := Option.some.inj e
      exact .read i v key st ea hv hid hst hc hr rfl (by rw [hs]; rfl)
    · exact .kept w e (.refl w)
  | wrapped schema t o ea hs =>
    rw [hs, view?_addRoot] at e
    split at e
    · next hid =>
      obtain rfl := Option.some.inj e
      exact .wrapped schema o ea hid rfl (by rw [hs]; rfl) (by rw [hs]; rfl)
    · exact .kept w e (.refl w)

/-! ## Numbers -/

theorem counters_le_act (s : Store) (a : Act) :
    s.nextView ≤ (s.act a).nextView ∧ s.nextSession ≤ (s.act a).nextSession := by
  cases s.effect_of_act a with
  | data _ hs => rw [hs]; exact ⟨Nat.le_refl _, Nat.le_refl _⟩
  | held _ hs => simp [hs]
  | released _ hs => simp [hs]
  | read _ _ _ _ _ _ _ _ _ _ _ hs => rw [hs]; exact ⟨Nat.le_succ _, Nat.le_refl _⟩
  | wrapped _ _ _ _ hs => rw [hs]; exact ⟨Nat.le_succ _, Nat.le_succ _⟩

theorem kept_of_lt {s : Store} {a : Act} {id : ViewId} {w : View} (hlt : id < s.nextView)
    (e : (s.act a).view? id = some w) : ∃ v, s.view? id = some v ∧ v.Same w := by
  cases origin_of_act e with
  | kept v hv same => exact ⟨v, hv, same⟩
  | read _ _ _ _ _ _ hid => exact absurd hid (Nat.ne_of_lt hlt)
  | wrapped _ _ _ hid => exact absurd hid (Nat.ne_of_lt hlt)

/-- The tables change only where a read makes a view. -/
theorem tables_act (s : Store) (a : Act) : (s.act a).tables = s.tables ∨
    ∃ i key v t st, a = .get i key ∧ s.view? i = some v ∧ v.target.step? key = some st ∧
      s.heap.child? v.target st = some t.toValue ∧ s.lookup? v.session t = none ∧
      (s.get v key).result = .view s.nextView ∧
      s.act a = (s.addNested ⟨t, v.schema.inner st, v.session, v.options, 1⟩).2 := by
  cases s.effect_of_act a with
  | data _ hs => exact .inl (by rw [hs])
  | held i hs => exact .inl (by rw [hs, tables_hold])
  | released i hs => exact .inl (by rw [hs, tables_release])
  | read i v key st t ea hv hst hc hl hr hs =>
    exact .inr ⟨i, key, v, t, st, ea, hv, hst, hc, hl, hr, hs⟩
  | wrapped _ _ _ _ hs => exact .inl (by rw [hs]; rfl)

theorem table_of_tables_eq {s s' : Store} (e : s'.tables = s.tables) (session : SessionId) :
    s'.table session = s.table session := by
  rw [table, e, table]

/-- An entry after an act was there before, or a read made it for its view. -/
theorem entry_of_act {s : Store} {a : Act} {session : SessionId} {addr : Nat} {id : ViewId}
    (e : ((s.act a).table session)[addr]? = some id) : (s.table session)[addr]? = some id ∨
    ∃ i key v t st, a = .get i key ∧ s.view? i = some v ∧ session = v.session ∧
      addr = s.heap.address t.ref ∧ id = s.nextView ∧ (s.get v key).result = .view id ∧
      s.act a = (s.addNested ⟨t, v.schema.inner st, v.session, v.options, 1⟩).2 := by
  rcases s.tables_act a with ht | ⟨i, key, v, t, st, ea, hv, _, _, _, hr, hs⟩
  · rw [table_of_tables_eq ht] at e
    exact .inl e
  · rw [hs, table_addNested] at e
    split at e
    · next hses =>
      split at e
      · next haddr =>
        obtain rfl := Option.some.inj e
        exact .inr ⟨i, key, v, t, st, ea, hv, hses, haddr, rfl, hr, hs⟩
      · exact .inl (Option.filter_eq_some_iff.mp e).1
    · exact .inl e

/-- The numbers in use lie below the counters, and a table has views of its session only. -/
structure Numbered (s : Store) : Prop where
  view : ∀ id v, s.view? id = some v → id < s.nextView ∧ v.session < s.nextSession
  entry : ∀ (session : SessionId) (addr : Nat) (id : ViewId), (s.table session)[addr]? = some id →
    id < s.nextView ∧ ∀ v, s.view? id = some v → v.session = session

theorem numbered_ofHeap (h : Heap) : (ofHeap h).Numbered := by
  constructor
  · intro id v e
    simp [ofHeap, view?] at e
  · intro session addr id e
    simp [ofHeap, table] at e

theorem Numbered.not_alive {s : Store} (hs : s.Numbered) : s.view? s.nextView = none := by
  cases e : s.view? s.nextView with
  | none => rfl
  | some v => exact absurd (hs.view _ v e).1 (Nat.lt_irrefl _)

theorem Numbered.act {s : Store} (hs : s.Numbered) (a : Act) : (s.act a).Numbered := by
  obtain ⟨hv, hn⟩ := s.counters_le_act a
  constructor
  · intro id w e
    cases origin_of_act e with
    | kept v e hw =>
      obtain ⟨h1, h2⟩ := hs.view id v e
      exact ⟨Nat.lt_of_lt_of_le h1 hv, by rw [hw.session]; exact Nat.lt_of_lt_of_le h2 hn⟩
    | read i v key st _ hi hid _ _ _ hw h1 =>
      rw [hw, h1, hid]
      exact ⟨Nat.lt_succ_self _, Nat.lt_of_lt_of_le (hs.view i v hi).2 hn⟩
    | wrapped schema o _ hid hw h1 h2 =>
      rw [hw, h1, h2, hid]
      exact ⟨Nat.lt_succ_self _, Nat.lt_succ_self _⟩
  · intro session addr id e
    rcases entry_of_act e with e | ⟨i, key, v, t, st, _, hi, hses, _, hid, _, ha⟩
    · obtain ⟨hlt, hsame⟩ := hs.entry session addr id e
      refine ⟨Nat.lt_of_lt_of_le hlt hv, fun w hw => ?_⟩
      obtain ⟨v, e, same⟩ := kept_of_lt hlt hw
      rw [same.session]
      exact hsame v e
    · subst hid hses
      rw [ha]
      refine ⟨Nat.lt_succ_self _, fun w hw => ?_⟩
      rw [view?_addNested, if_pos rfl] at hw
      rw [← Option.some.inj hw]

theorem wrapped_of_session {s : Store} (hs : s.Numbered) {a : Act} {id : ViewId} {w : View}
    (e : (s.act a).view? id = some w) (hw : w.session = s.nextSession) :
    a = .wrap w.schema w.target.toValue w.options ∧ id = s.nextView := by
  cases origin_of_act e with
  | kept v hv same =>
    have hlt := (hs.view id v hv).2
    rw [← same.session, hw] at hlt
    exact absurd hlt (Nat.lt_irrefl _)
  | read i v _ _ _ hv _ _ _ _ ew _ =>
    have hlt := (hs.view i v hv).2
    rw [ew] at hw
    exact absurd hw (Nat.ne_of_lt hlt)
  | wrapped schema o ea hid ew _ _ => exact ⟨by rw [ea, ew], hid⟩

/-! ## Runs -/

section
variable {s : Store} {id : ViewId} {w : View} {i : SessionId} {o : Options}

theorem after_append (s : Store) (as bs : List Act) : s.after (as ++ bs) = (s.after as).after bs :=
  List.foldl_append

theorem Numbered.after (hs : s.Numbered) (acts : List Act) : (s.after acts).Numbered := by
  induction acts generalizing s with
  | nil => exact hs
  | cons a acts ih => exact ih (hs.act a)

/-- A view with a number below the counter was there before all later acts. -/
theorem same_of_after (acts : List Act) (hlt : id < s.nextView)
    (e : (s.after acts).view? id = some w) : ∃ v, s.view? id = some v ∧ v.Same w := by
  induction acts generalizing s with
  | nil => exact ⟨w, e, .refl w⟩
  | cons a acts ih =>
    have hlt' : id < (s.act a).nextView := Nat.lt_of_lt_of_le hlt (s.counters_le_act a).1
    obtain ⟨u, hu, hw⟩ := ih hlt' e
    obtain ⟨v, hv, hvu⟩ := kept_of_lt hlt hu
    exact ⟨v, hv, hvu.trans hw⟩

/-- All views of the session have the options. -/
def Keeps (s : Store) (session : SessionId) (o : Options) : Prop :=
  ∀ id v, s.view? id = some v → v.session = session → v.options = o

theorem Keeps.act (hk : s.Keeps i o) (hi : i < s.nextSession) (a : Act) : (s.act a).Keeps i o := by
  intro id w e hw
  cases origin_of_act e with
  | kept v hv same =>
    rw [same.options]
    exact hk id v hv (same.session ▸ hw)
  | read j v key st _ hv _ _ _ _ ew _ =>
    rw [ew] at hw ⊢
    exact hk j v hv hw
  | wrapped schema o' _ _ ew _ _ =>
    rw [ew] at hw
    exact absurd hw (Nat.ne_of_gt hi)

theorem Keeps.after (hk : s.Keeps i o) (hi : i < s.nextSession) (acts : List Act) :
    (s.after acts).Keeps i o := by
  induction acts generalizing s with
  | nil => exact hk
  | cons a acts ih => exact ih (hk.act hi a) (Nat.lt_of_lt_of_le hi (s.counters_le_act a).2)

theorem keeps_act_wrap (hs : s.Numbered) (schema : Schema) (t : Handle) (o : Options) :
    (s.act (.wrap schema t.toValue o)).Keeps s.nextSession o ∧
      s.nextSession < (s.act (.wrap schema t.toValue o)).nextSession := by
  constructor
  · intro id w e hw
    obtain ⟨ea, -⟩ := wrapped_of_session hs e hw
    exact (Act.wrap.inj ea).2.2.symm
  · simp only [Store.act, Store.wrap, t.handle?_toValue]
    exact Nat.lt_succ_self s.nextSession

end

/-! ## Reads of a view -/

section
variable {s : Store} {v : View} {key : Key} {i id : ViewId}

theorem view?_get_of_view? (hs : s.Numbered) (key : Key) (w : View) (hv : s.view? i = some v) :
    ∃ v', (s.get w key).store.view? i = some v' ∧ v.Same v' := by
  rcases s.get_cases w key with ⟨_, hg⟩ | ⟨t, j, _, _, hg⟩ | ⟨t, _, _, hg⟩ <;> rw [hg]
  · exact ⟨v, hv, .refl v⟩
  · exact view?_hold_of_view? hv
  · refine ⟨v, ?_, .refl v⟩
    rw [view?_addNested, if_neg (Nat.ne_of_lt (hs.view i v hv).1), hv]

/-- The view that a read gives is that of the object or array in the slot. -/
theorem view?_of_get (hs : s.Numbered) (hr : (s.get v key).result = .view id) :
    ∃ w st, (s.get v key).store.view? id = some w ∧ w.session = v.session ∧
      v.target.step? key = some st ∧ s.heap.child? v.target st = some w.target.toValue ∧
      ((s.lookup? v.session w.target = some id ∧ ∃ u, s.view? id = some u ∧ u.Same w) ∨
      (s.lookup? v.session w.target = none ∧ w.schema = v.schema.inner st)) := by
  obtain ⟨t, st, hst, hc, ⟨hl, e⟩ | ⟨hl, rfl, e⟩⟩ := get_view_cases hr
  · obtain ⟨u, htab, hu, rfl⟩ := lookup?_eq_some hl
    obtain ⟨w, hw, hsame⟩ := view?_hold_of_view? (i := id) hu
    refine ⟨w, st, e ▸ hw, ?_, hst, ?_, .inl ⟨?_, u, hu, hsame⟩⟩
    · rw [hsame.session]
      exact (hs.entry _ _ _ htab).2 u hu
    · rw [hsame.target, hc]
    · rw [hsame.target, hl]
  · refine ⟨⟨t, v.schema.inner st, v.session, v.options, 1⟩, st, ?_, rfl, hst, hc, .inr ⟨hl, rfl⟩⟩
    rw [e, view?_addNested, if_pos rfl]

/-- After a read the session knows what it knew before, and the view that the read gave. -/
theorem lookup?_of_get {w : View} (hr : (s.get v key).result = .view id)
    (hw : (s.get v key).store.view? id = some w) {t : Handle}
    (hl : (s.get v key).store.lookup? v.session t = some i) :
    (i = id ∧ t = w.target) ∨ s.lookup? v.session t = some i := by
  obtain ⟨u, htab, hu, rfl⟩ := lookup?_eq_some hl
  obtain ⟨t, st, _, _, ⟨hl', e⟩ | ⟨hl', rfl, e⟩⟩ := get_view_cases hr
  · rw [e] at htab hu
    rw [table_hold, heap_hold] at htab
    obtain ⟨u', hu', hsame⟩ := same_of_view?_hold hu
    exact .inr (lookup?_of_table htab hu' hsame.target.symm ▸ by rw [hsame.target])
  · rw [e] at htab hu hw
    rw [view?_addNested] at hu
    split at hu
    · next hi =>
      rw [view?_addNested, if_pos rfl] at hw
      exact .inl ⟨hi, by rw [← Option.some.inj hu, ← Option.some.inj hw]⟩
    · next hi =>
      rw [table_addNested, if_pos rfl] at htab
      split at htab
      · exact absurd (Option.some.inj htab).symm hi
      · exact .inr (lookup?_of_table (Option.filter_eq_some_iff.mp htab).1 hu rfl)

end

end Store

namespace Program

section
variable {P : Program} {a : Act}

theorem roots_act (P : Program) (a : Act) : (P.act a).roots = P.roots ∨
    ∃ schema t o, a = .wrap schema t.toValue o ∧ (P.act a).roots = P.store.nextView :: P.roots ∧
      (P.act a).store = ({ P.store with nextSession := P.store.nextSession + 1 }.addRoot
        ⟨t, schema, P.store.nextSession, o, 1⟩).2 := by
  cases a with
  | wrap schema x o =>
    rcases P.store.wrap_cases schema x o with ⟨e, hs, _⟩ | ⟨t, rfl, hr, hs⟩
    · exact .inl (by simp [act, hs])
    · exact .inr ⟨schema, t, o, rfl, by simp [act, hr], hs⟩
  | _ => exact .inl rfl

theorem reads_act (P : Program) (a : Act) : (P.act a).reads = P.reads ∨
    ∃ i key v w, a = .get i key ∧ P.store.view? i = some v ∧
      (P.store.get v key).result = .view w ∧
      (P.act a).reads = ⟨i, v.target, key, w, !P.store.isAlive w⟩ :: P.reads := by
  cases a with
  | get i key =>
    simp only [act, Store.recordGet]
    cases hv : P.store.view? i with
    | none => exact .inl rfl
    | some v =>
      cases hr : (P.store.get v key).result with
      | value x => exact .inl (by simp [hr])
      | view w => exact .inr ⟨i, key, v, w, rfl, hv, hr, by simp [hr]⟩
  | _ => exact .inl rfl

theorem store_act (P : Program) (a : Act) : (P.act a).store = P.store.act a := rfl

theorem store_act_get {i : ViewId} {v : View} {key : Key} (hv : P.store.view? i = some v) :
    (P.act (.get i key)).store = (P.store.get v key).store := by
  simp [act, Store.act, hv]

theorem mem_roots_act {r : ViewId} (hr : r ∈ P.roots) (a : Act) : r ∈ (P.act a).roots := by
  rcases P.roots_act a with e | ⟨_, _, _, _, e, _⟩ <;> rw [e]
  · exact hr
  · exact List.mem_cons_of_mem _ hr

theorem mem_reads_act {rd : Read} (hrd : rd ∈ P.reads) (a : Act) : rd ∈ (P.act a).reads := by
  rcases P.reads_act a with e | ⟨_, _, _, _, _, _, _, e⟩ <;> rw [e]
  · exact hrd
  · exact List.mem_cons_of_mem _ hrd

theorem mem_roots_of_wrap (P : Program) (schema : Schema) (t : Handle) (o : Options) :
    P.store.nextView ∈ (P.act (.wrap schema t.toValue o)).roots := by
  rcases P.store.wrap_cases schema t.toValue o with ⟨_, _, e⟩ | ⟨u, _, hr, _⟩
  · simp at e
  · simp [act, hr]

theorem mem_reads_of_get {i : ViewId} {v : View} {key : Key} {w : ViewId}
    (hv : P.store.view? i = some v) (hr : (P.store.get v key).result = .view w) :
    ⟨i, v.target, key, w, !P.store.isAlive w⟩ ∈ (P.act (.get i key)).reads := by
  simp [act, Store.recordGet, hv, hr]

/-- The numbers in use, those in the records included, lie below the counters. -/
structure Numbered (P : Program) : Prop where
  store : P.store.Numbered
  root : ∀ r ∈ P.roots, r < P.store.nextView
  read : ∀ rd ∈ P.reads, rd.reader < P.store.nextView ∧ rd.result < P.store.nextView

theorem Numbered.act (hP : P.Numbered) (a : Act) : (P.act a).Numbered := by
  have hle : P.store.nextView ≤ (P.act a).store.nextView := (P.store.counters_le_act a).1
  refine ⟨hP.store.act a, ?_, ?_⟩
  · intro r hr
    rcases P.roots_act a with e | ⟨_, _, _, _, e, hs⟩ <;> rw [e] at hr
    · exact Nat.lt_of_lt_of_le (hP.root r hr) hle
    · rcases List.mem_cons.mp hr with rfl | hr
      · rw [hs]
        exact Nat.lt_succ_self _
      · exact Nat.lt_of_lt_of_le (hP.root r hr) hle
  · intro rd hrd
    have old : rd ∈ P.reads → rd.reader < (P.act a).store.nextView ∧
        rd.result < (P.act a).store.nextView := by
      intro h
      obtain ⟨h1, h2⟩ := hP.read rd h
      exact ⟨Nat.lt_of_lt_of_le h1 hle, Nat.lt_of_lt_of_le h2 hle⟩
    rcases P.reads_act a with e | ⟨i, key, v, w, rfl, hv, hr, e⟩ <;> rw [e] at hrd
    · exact old hrd
    · rcases List.mem_cons.mp hrd with rfl | hrd
      · refine ⟨Nat.lt_of_lt_of_le (hP.store.view i v hv).1 hle, ?_⟩
        obtain ⟨t, st, _, _, ⟨hl, _⟩ | ⟨_, rfl, hs⟩⟩ := Store.get_view_cases hr
        · obtain ⟨u, _, hu, _⟩ := Store.lookup?_eq_some hl
          exact Nat.lt_of_lt_of_le (hP.store.view w u hu).1 hle
        · rw [store_act_get hv, hs]
          exact Nat.lt_succ_self _
      · exact old hrd

theorem numbered_initial (h : Heap) : (initial h).Numbered :=
  ⟨Store.numbered_ofHeap h, fun _ hr => absurd hr List.not_mem_nil,
    fun _ hr => absurd hr List.not_mem_nil⟩

theorem Reached.numbered {h : Heap} (hr : Reached h P) : P.Numbered :=
  Runs.invariant Numbered (numbered_initial h) (fun _ a hn _ => hn.act a) hr

/-- What every act preserves, given that the numbers are in order, always holds. -/
theorem Reached.invariant {h : Heap} (I : Program → Prop) (h0 : I (initial h))
    (step : ∀ P a, P.Numbered → I P → I (P.act a)) (hr : Reached h P) : I P := by
  induction hr with
  | start => exact h0
  | act a hr _ ih => exact step _ a (Reached.numbered hr) ih

end

end Program

end GuardedData
