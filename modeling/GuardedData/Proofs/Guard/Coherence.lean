import GuardedData.Proofs.Guard.Memory

/-!
# Coherence of the view tables

The table of a session is keyed by addresses, which are used again, and keeps
entries of dead views until a view is made. `Cached` ties it to the views that
are alive: a live view pins its target, so that its entry is under the address
of the target and nothing else comes to lie there. `Sessions` ties views to the
roots that they are read from. What users of views rely on is `Coherent`.
-/

namespace GuardedData.Program

/-- A read gave the view. -/
def Nested (P : Program) (id : ViewId) : Prop := ∃ rd ∈ P.reads, rd.result = id

/-- The view is the root `r`, or reads led to it from there. -/
inductive ViewOf (P : Program) (r : ViewId) : ViewId → Prop where
  | root : r ∈ P.roots → ViewOf P r r
  | read (rd : Read) : ViewOf P r rd.reader → rd ∈ P.reads → ViewOf P r rd.result

/-- The tables have the live nested views, each under the address of its target. -/
structure Cached (P : Program) : Prop where
  owned : ∀ id w, P.store.view? id = some w → ∃ r, P.ViewOf r id
  root : ∀ r ∈ P.roots, ¬ P.Nested r
  nested : ∀ (session : SessionId) (addr : Nat) (id : ViewId),
    (P.store.table session)[addr]? = some id → P.Nested id
  address : ∀ (session : SessionId) (addr : Nat) (id : ViewId) (w : View),
    (P.store.table session)[addr]? = some id → P.store.view? id = some w →
      addr = P.store.heap.address w.target.ref
  entry : ∀ id w, P.Nested id → P.store.view? id = some w →
    (P.store.table w.session)[P.store.heap.address w.target.ref]? = some id

section
variable {P : Program} {a : Act} {id r : ViewId}

theorem Nested.act (hn : P.Nested id) (a : Act) : (P.act a).Nested id := by
  obtain ⟨rd, hrd, e⟩ := hn
  exact ⟨rd, mem_reads_act hrd a, e⟩

theorem Nested.of_act (hn : (P.act a).Nested id) : P.Nested id ∨
    ∃ i key v, a = .get i key ∧ P.store.view? i = some v ∧
      (P.store.get v key).result = .view id := by
  obtain ⟨rd, hrd, rfl⟩ := hn
  rcases P.reads_act a with es | ⟨i, key, v, w, ea, hv, hr, es⟩ <;> rw [es] at hrd
  · exact .inl ⟨rd, hrd, rfl⟩
  · rcases List.mem_cons.mp hrd with rfl | hrd
    · exact .inr ⟨i, key, v, ea, hv, hr⟩
    · exact .inl ⟨rd, hrd, rfl⟩

theorem Nested.lt (hP : P.Numbered) (hn : P.Nested id) : id < P.store.nextView := by
  obtain ⟨rd, hrd, rfl⟩ := hn
  exact (hP.read rd hrd).2

/-- A view that a read gives was given before, or is made by the read. -/
theorem nested_of_get (hc : P.Cached) {v : View} {key : Key}
    (hr : (P.store.get v key).result = .view id) : P.Nested id ∨ id = P.store.nextView := by
  obtain ⟨t, st, _, _, ⟨hl, _⟩ | ⟨_, e, _⟩⟩ := Store.get_view_cases hr
  · obtain ⟨u, htab, _, _⟩ := Store.lookup?_eq_some hl
    exact .inl (hc.nested _ _ _ htab)
  · exact .inr e

/-! ## Tables -/

theorem address_kept (hp : P.Placed) {v w : View} (hv : P.store.view? id = some v)
    (hs : v.Same w) : (P.store.act a).heap.address w.target.ref =
      P.store.heap.address v.target.ref := by
  rw [hs.target]
  exact (P.address_act a).2.1 _ (hp.below _ (.target hv))

theorem ViewOf.act (hv : P.ViewOf r id) (a : Act) : (P.act a).ViewOf r id := by
  induction hv with
  | root hr => exact .root (mem_roots_act hr a)
  | read rd _ hrd ih => exact .read rd ih (mem_reads_act hrd a)

theorem Cached.owned_act (hc : P.Cached) {w : View} (e : (P.act a).store.view? id = some w) :
    ∃ r, (P.act a).ViewOf r id := by
  cases Store.origin_of_act e with
  | kept v hv _ =>
    obtain ⟨r, hr⟩ := hc.owned id v hv
    exact ⟨r, hr.act a⟩
  | read i v key st ea hv hid _ _ hr _ _ =>
    subst ea hid
    obtain ⟨r, hi⟩ := hc.owned i v hv
    exact ⟨r, .read _ (hi.act _) (mem_reads_of_get hv hr)⟩
  | wrapped schema o ea hid _ _ _ =>
    subst ea hid
    exact ⟨_, .root (P.mem_roots_of_wrap _ _ _)⟩

theorem Cached.root_act (hc : P.Cached) (hP : P.Numbered) (hr : r ∈ (P.act a).roots) :
    ¬ (P.act a).Nested r := by
  intro hn
  rcases P.roots_act a with e | ⟨_, _, _, ea, e, _⟩ <;> rw [e] at hr
  · rcases hn.of_act with hn | ⟨i, key, v, _, _, hres⟩
    · exact hc.root r hr hn
    · rcases nested_of_get hc hres with hn | rfl
      · exact hc.root r hr hn
      · exact absurd (hP.root _ hr) (Nat.lt_irrefl _)
  · rcases hn.of_act with hn | ⟨_, _, _, ea', _, _⟩
    · rcases List.mem_cons.mp hr with rfl | hr
      · exact absurd (hn.lt hP) (Nat.lt_irrefl _)
      · exact hc.root r hr hn
    · rw [ea] at ea'
      cases ea'

theorem Cached.nested_act (hc : P.Cached) {session : SessionId} {addr : Nat}
    (e : ((P.act a).store.table session)[addr]? = some id) : (P.act a).Nested id := by
  rcases Store.entry_of_act e with e | ⟨i, key, v, t, st, ea, hv, _, _, _, hr, _⟩
  · exact (hc.nested _ _ _ e).act a
  · subst ea
    exact ⟨_, mem_reads_of_get hv hr, rfl⟩

theorem Cached.address_act (hc : P.Cached) (hP : P.Numbered) (hp : P.Placed)
    {session : SessionId} {addr : Nat} {w : View}
    (e : ((P.act a).store.table session)[addr]? = some id)
    (hw : (P.act a).store.view? id = some w) :
    addr = (P.act a).store.heap.address w.target.ref := by
  rcases Store.entry_of_act e with e | ⟨i, key, v, t, st, _, _, _, haddr, hid, _, hs⟩
  · obtain ⟨v, hv, same⟩ := Store.kept_of_lt (hP.store.entry _ _ _ e).1 hw
    rw [store_act, address_kept hp hv same, hc.address _ _ _ v e hv]
  · rw [store_act, hs] at hw ⊢
    rw [Store.view?_addNested, if_pos hid] at hw
    rw [haddr, ← Option.some.inj hw]
    rfl

/-- A live nested view keeps its entry: another view would be entered in its place only if it
had the same target, and then the read would have found the entry. -/
theorem Cached.entry_kept (hc : P.Cached) (hp : P.Placed) {v w : View} (hn : P.Nested id)
    (hv : P.store.view? id = some v) (hsame : v.Same w) :
    ((P.act a).store.table w.session)[(P.act a).store.heap.address w.target.ref]? = some id := by
  have e := hc.entry id v hn hv
  rw [store_act, address_kept hp hv hsame, hsame.session]
  rcases P.store.tables_act a with ht | ⟨i, key, u, t, st, _, hu, _, hch, hl, _, hs⟩
  · rw [Store.table_of_tables_eq ht]
    exact e
  · rw [hs, Store.table_addNested]
    split
    · next hses =>
      split
      · next haddr =>
        have ht : P.Alive t := .content (.target hu) hch (.self t)
        have et : v.target = t := hp.inj _ _ (.target hv) ht haddr
        rw [← et] at hl
        have hses : v.session = u.session := hses
        rw [← hses, Store.lookup?_of_table e hv rfl] at hl
        cases hl
      · exact Option.filter_eq_some_iff.mpr ⟨e, by rw [Store.isAlive_eq, hv]; rfl⟩
    · exact e

theorem Cached.entry_act (hc : P.Cached) (hP : P.Numbered) (hp : P.Placed) {w : View}
    (hn : (P.act a).Nested id) (e : (P.act a).store.view? id = some w) :
    ((P.act a).store.table w.session)[(P.act a).store.heap.address w.target.ref]? = some id := by
  cases Store.origin_of_act e with
  | kept v hv hsame =>
    have nested : P.Nested id := by
      rcases hn.of_act with hn | ⟨_, _, _, _, _, hr⟩
      · exact hn
      · rcases nested_of_get hc hr with hn | rfl
        · exact hn
        · rw [hP.store.not_alive] at hv
          cases hv
    exact hc.entry_kept hp nested hv hsame
  | read i v key st ea hv hid _ _ hr _ _ =>
    subst ea hid
    rw [store_act_get hv] at e ⊢
    have hnew : P.store.isAlive P.store.nextView = false := by
      rw [Store.isAlive_eq, hP.store.not_alive]
      rfl
    obtain ⟨_, t, st', _, _, hs⟩ := Store.get_new_view hr hnew
    rw [hs] at e ⊢
    rw [Store.view?_addNested, if_pos rfl] at e
    obtain rfl := Option.some.inj e
    rw [Store.table_addNested, if_pos rfl]
    exact if_pos rfl
  | wrapped schema o ea hid _ _ _ =>
    rcases hn.of_act with hn | ⟨_, _, _, ea', _, _⟩
    · exact absurd hid (Nat.ne_of_lt (hn.lt hP))
    · rw [ea] at ea'
      cases ea'

theorem Cached.act (hc : P.Cached) (hP : P.Numbered) (hp : P.Placed) : (P.act a).Cached where
  owned _ _ e := hc.owned_act e
  root _ hr := hc.root_act hP hr
  nested _ _ _ e := hc.nested_act e
  address _ _ _ _ e hw := hc.address_act hP hp e hw
  entry _ _ hn e := hc.entry_act hP hp hn e

/-! ## Sessions -/

/-- The session of each view that there was: reads stay in the session of the reader, and each
root has a session of its own. -/
structure Sessions (P : Program) (f : ViewId → SessionId) : Prop where
  view : ∀ id w, P.store.view? id = some w → w.session = f id
  read : ∀ rd ∈ P.reads, f rd.result = f rd.reader
  root : ∀ r ∈ P.roots, f r < P.store.nextSession
  inj : ∀ r ∈ P.roots, ∀ r' ∈ P.roots, f r = f r' → r = r'

/-- The sessions after an act: a view that the act makes has the session it was made with. -/
def nextSessions (P : Program) (a : Act) (f : ViewId → SessionId) (id : ViewId) : SessionId :=
  if id = P.store.nextView then
    match (P.act a).store.view? id with
    | some w => w.session
    | none => 0
  else f id

theorem nextSessions_old {f : ViewId → SessionId} (hlt : id < P.store.nextView) :
    P.nextSessions a f id = f id :=
  if_neg (Nat.ne_of_lt hlt)

theorem nextSessions_new {f : ViewId → SessionId} {w : View}
    (e : (P.act a).store.view? P.store.nextView = some w) :
    P.nextSessions a f P.store.nextView = w.session := by
  simp [nextSessions, e]

theorem nextSessions_wrapped {f : ViewId → SessionId} {schema : Schema} {t : Handle} {o : Options}
    (hs : (P.act a).store = ({ P.store with nextSession := P.store.nextSession + 1 }.addRoot
      ⟨t, schema, P.store.nextSession, o, 1⟩).2) :
    P.nextSessions a f P.store.nextView = P.store.nextSession := by
  refine nextSessions_new (w := ⟨t, schema, P.store.nextSession, o, 1⟩) ?_
  rw [hs, Store.view?_addRoot]
  exact if_pos rfl

theorem Sessions.view_act {f : ViewId → SessionId} (hf : P.Sessions f) (hP : P.Numbered)
    {w : View} (e : (P.act a).store.view? id = some w) : w.session = P.nextSessions a f id := by
  cases Store.origin_of_act e with
  | kept v hv hs =>
    rw [nextSessions_old (hP.store.view id v hv).1, hs.session]
    exact hf.view id v hv
  | read _ _ _ _ _ _ hid => subst hid; exact (nextSessions_new e).symm
  | wrapped _ _ _ hid => subst hid; exact (nextSessions_new e).symm

/-- The view that a read gives, an old one or a new one, is in the session of the reader. -/
theorem Sessions.get_act {f : ViewId → SessionId} (hf : P.Sessions f) (hP : P.Numbered)
    {i : ViewId} {v : View} {key : Key} (hv : P.store.view? i = some v)
    (hr : (P.store.get v key).result = .view id) :
    P.nextSessions (.get i key) f id = P.nextSessions (.get i key) f i := by
  rw [nextSessions_old (hP.store.view i v hv).1, ← hf.view i v hv]
  obtain ⟨t, st, _, _, ⟨hl, _⟩ | ⟨_, rfl, hs⟩⟩ := Store.get_view_cases hr
  · obtain ⟨u, htab, hu, _⟩ := Store.lookup?_eq_some hl
    obtain ⟨hlt, hses⟩ := hP.store.entry _ _ _ htab
    rw [nextSessions_old hlt, ← hf.view id u hu, hses u hu]
  · refine nextSessions_new (w := ⟨t, v.schema.inner st, v.session, v.options, 1⟩) ?_
    rw [store_act_get hv, hs, Store.view?_addNested, if_pos rfl]

theorem Sessions.read_act {f : ViewId → SessionId} (hf : P.Sessions f) (hP : P.Numbered)
    {rd : Read} (hrd : rd ∈ (P.act a).reads) :
    P.nextSessions a f rd.result = P.nextSessions a f rd.reader := by
  have old : rd ∈ P.reads → P.nextSessions a f rd.result = P.nextSessions a f rd.reader := by
    intro hrd
    obtain ⟨h1, h2⟩ := hP.read rd hrd
    rw [nextSessions_old h1, nextSessions_old h2, hf.read rd hrd]
  rcases P.reads_act a with e | ⟨i, key, v, w, rfl, hv, hr, e⟩ <;> rw [e] at hrd
  · exact old hrd
  · rcases List.mem_cons.mp hrd with rfl | hrd
    · exact hf.get_act hP hv hr
    · exact old hrd

theorem Sessions.root_act {f : ViewId → SessionId} (hf : P.Sessions f) (hP : P.Numbered)
    (hr : r ∈ (P.act a).roots) : P.nextSessions a f r < (P.act a).store.nextSession := by
  have old : r ∈ P.roots → P.nextSessions a f r < (P.act a).store.nextSession := by
    intro hr
    rw [nextSessions_old (hP.root r hr)]
    exact Nat.lt_of_lt_of_le (hf.root r hr) (P.store.counters_le_act a).2
  rcases P.roots_act a with e | ⟨schema, t, o, _, e, hs⟩ <;> rw [e] at hr
  · exact old hr
  · rcases List.mem_cons.mp hr with rfl | hr
    · rw [nextSessions_wrapped hs, hs]
      exact Nat.lt_succ_self _
    · exact old hr

theorem Sessions.inj_act {f : ViewId → SessionId} (hf : P.Sessions f) (hP : P.Numbered)
    {r' : ViewId} (hr : r ∈ (P.act a).roots) (hr' : r' ∈ (P.act a).roots)
    (e : P.nextSessions a f r = P.nextSessions a f r') : r = r' := by
  have old : r ∈ P.roots → r' ∈ P.roots → r = r' := by
    intro hr hr'
    rw [nextSessions_old (hP.root r hr), nextSessions_old (hP.root r' hr')] at e
    exact hf.inj r hr r' hr' e
  rcases P.roots_act a with er | ⟨schema, t, o, _, er, hs⟩ <;> rw [er] at hr hr'
  · exact old hr hr'
  · rcases List.mem_cons.mp hr with rfl | hr <;> rcases List.mem_cons.mp hr' with rfl | hr'
    · rfl
    · rw [nextSessions_wrapped hs, nextSessions_old (hP.root r' hr')] at e
      exact absurd e.symm (Nat.ne_of_lt (hf.root r' hr'))
    · rw [nextSessions_wrapped hs, nextSessions_old (hP.root r hr)] at e
      exact absurd e (Nat.ne_of_lt (hf.root r hr))
    · exact old hr hr'

theorem Sessions.act {f : ViewId → SessionId} (hf : P.Sessions f) (hP : P.Numbered) (a : Act) :
    (P.act a).Sessions (P.nextSessions a f) where
  view _ _ e := hf.view_act hP e
  read _ hrd := hf.read_act hP hrd
  root _ hr := hf.root_act hP hr
  inj _ hr _ hr' e := hf.inj_act hP hr hr' e

theorem ViewOf.session {f : ViewId → SessionId} (hf : P.Sessions f) (hv : P.ViewOf r id) :
    r ∈ P.roots ∧ f id = f r := by
  induction hv with
  | root hr => exact ⟨hr, rfl⟩
  | read rd _ hrd ih => exact ⟨ih.1, (hf.read rd hrd).trans ih.2⟩

/-! ## What holds of every run -/

def LiveIn (P : Program) (session : SessionId) (id : ViewId) : Prop :=
  P.Nested id ∧ ∃ w, P.store.view? id = some w ∧ w.session = session

theorem Cached.liveIn_iff (hc : P.Cached) (hP : P.Numbered) {session : SessionId} :
    P.LiveIn session id ↔
      ∃ addr : Nat, (P.store.table session)[addr]? = some id ∧ P.store.isAlive id = true := by
  constructor
  · rintro ⟨hn, w, hw, rfl⟩
    exact ⟨_, hc.entry id w hn hw, by rw [Store.isAlive_eq, hw]; rfl⟩
  · rintro ⟨addr, e, halive⟩
    rw [Store.isAlive_eq, Option.isSome_iff_exists] at halive
    obtain ⟨w, hw⟩ := halive
    exact ⟨hc.nested _ _ _ e, w, hw, (hP.store.entry _ _ _ e).2 w hw⟩

/-- `liveViews` counts the live nested views of a session. -/
theorem Cached.liveViews (hc : P.Cached) (hP : P.Numbered) (session : SessionId) :
    ∃ ids : List ViewId, ids.Nodup ∧ (∀ id, id ∈ ids ↔ P.LiveIn session id) ∧
      P.store.liveViews session = ids.length := by
  refine ⟨((P.store.table session).toList.filter fun e => P.store.isAlive e.2).map Prod.snd,
    ?_, fun id => ?_, by rw [List.length_map]; rfl⟩
  · rw [List.Nodup, List.pairwise_map]
    refine (Std.ExtTreeMap.distinct_keys_toList.filter _).imp_of_mem ?_
    rintro ⟨addr, id⟩ ⟨addr', id'⟩ hx hy hne (rfl : id = id')
    simp only [List.mem_filter, Std.ExtTreeMap.mem_toList_iff_getElem?_eq_some,
      Store.isAlive_eq, Option.isSome_iff_exists] at hx hy
    obtain ⟨e, w, hw⟩ := hx
    refine hne ?_
    show compare addr addr' = .eq
    rw [hc.address _ _ _ w e hw, hc.address _ _ _ w hy.1 hw, Std.compare_self]
  · rw [hc.liveIn_iff hP]
    simp [List.mem_filter, Std.ExtTreeMap.mem_toList_iff_getElem?_eq_some]

/-- What holds of the views at any time. -/
structure Coherent (P : Program) : Prop where
  /-- Live nested views of one session and one target are one view. -/
  one_view : ∀ id id' w w', P.Nested id → P.Nested id' → P.store.view? id = some w →
    P.store.view? id' = some w' → w.session = w'.session → w.target = w'.target → id = id'
  /-- Every view belongs to one root. -/
  owned : ∀ id w, P.store.view? id = some w → ∃ r, P.ViewOf r id
  one_root : ∀ r r' id, P.ViewOf r id → P.ViewOf r' id → r = r'
  /-- The views of a root are those of a session. -/
  session_iff : ∀ r r' id id' w w', P.ViewOf r id → P.ViewOf r' id' → P.store.view? id = some w →
    P.store.view? id' = some w' → (w.session = w'.session ↔ r = r')
  /-- The view that a read gives is of the object or array in the slot. -/
  target : ∀ i v key id, P.store.view? i = some v → (P.store.get v key).result = .view id →
    ∃ w, (P.act (.get i key)).store.view? id = some w ∧
      P.store.heap.slot v.target key = w.target.toValue
  /-- A live view that is entered under the address of a live cell is of that cell. -/
  pinned : ∀ session t id w, P.Alive t →
    (P.store.table session)[P.store.heap.address t.ref]? = some id →
      P.store.view? id = some w → w.target = t
  /-- The live nested views of a session are counted, and no root is one. -/
  count : ∀ session, ∃ ids : List ViewId, ids.Nodup ∧
    (∀ id, id ∈ ids ↔ P.LiveIn session id) ∧ P.store.liveViews session = ids.length
  root : ∀ r ∈ P.roots, ¬ P.Nested r
  /-- After a read made a view, the table has the live nested views and nothing else. -/
  pruned : ∀ i v key id, P.store.view? i = some v → (P.store.get v key).result = .view id →
    P.store.isAlive id = false → ∀ (addr : Nat) (j : ViewId),
      ((P.act (.get i key)).store.table v.session)[addr]? = some j ↔
        (P.act (.get i key)).Nested j ∧ ∃ w, (P.act (.get i key)).store.view? j = some w ∧
          w.session = v.session ∧ addr = (P.act (.get i key)).store.heap.address w.target.ref

/-- Right after a read made a view, the table has the live nested views only. -/
theorem Cached.pruned (hc : P.Cached) (hP : P.Numbered) (hp : P.Placed) {i : ViewId} {v : View}
    {key : Key} (hv : P.store.view? i = some v) (hr : (P.store.get v key).result = .view id)
    (hnew : P.store.isAlive id = false) (addr : Nat) (j : ViewId) :
    ((P.act (.get i key)).store.table v.session)[addr]? = some j ↔
      (P.act (.get i key)).Nested j ∧ ∃ w, (P.act (.get i key)).store.view? j = some w ∧
        w.session = v.session ∧ addr = (P.act (.get i key)).store.heap.address w.target.ref := by
  have hc' : (P.act (.get i key)).Cached := hc.act hP hp
  have hP' : (P.act (.get i key)).Numbered := hP.act _
  constructor
  · intro e
    have alive : ∃ w, (P.act (.get i key)).store.view? j = some w := by
      obtain ⟨_, t, st, _, _, hs⟩ := Store.get_new_view hr hnew
      rw [store_act_get hv, hs] at e ⊢
      rw [Store.table_addNested, if_pos rfl] at e
      rw [Store.view?_addNested]
      split at e
      · exact ⟨_, if_pos (Option.some.inj e).symm⟩
      · have halive := (Option.filter_eq_some_iff.mp e).2
        rw [Store.isAlive_eq, Option.isSome_iff_exists] at halive
        obtain ⟨u, hu⟩ := halive
        exact ⟨u, (if_neg (Nat.ne_of_lt (hP.store.view j u hu).1)).trans hu⟩
    obtain ⟨w, hw⟩ := alive
    exact ⟨hc'.nested _ _ _ e, w, hw, (hP'.store.entry _ _ _ e).2 w hw,
      hc'.address _ _ _ w e hw⟩
  · rintro ⟨hn, w, hw, hses, rfl⟩
    rw [← hses]
    exact hc'.entry j w hn hw

theorem cached_initial (h : Heap) : (initial h).Cached := by
  have no : ∀ id, (initial h).store.view? id = none := by
    intro id
    simp [initial, Store.ofHeap, Store.view?]
  have entry : ∀ (session : SessionId) (addr : Nat) (id : ViewId),
      ((initial h).store.table session)[addr]? ≠ some id := by
    intro session addr id
    simp [initial, Store.ofHeap, Store.table]
  constructor
  · intro id w e
    rw [no id] at e
    cases e
  · exact fun r hr => absurd hr List.not_mem_nil
  · exact fun session addr id e => absurd e (entry session addr id)
  · exact fun session addr id w e => absurd e (entry session addr id)
  · intro id w _ e
    rw [no id] at e
    cases e

theorem sessions_initial (h : Heap) : (initial h).Sessions fun _ => 0 where
  view id w e := by
    simp [initial, Store.ofHeap, Store.view?] at e
  read _ hrd := absurd hrd List.not_mem_nil
  root _ hr := absurd hr List.not_mem_nil
  inj _ hr := absurd hr List.not_mem_nil

/-- Any run in which only live handles are used and no address is given away that is in use
keeps the views coherent. -/
theorem coherent_of_permitted (run : Runs Permitted (initial .empty) P) : P.Coherent := by
  have hr : Reached .empty P := run.mono fun _ _ _ => trivial
  obtain ⟨hP, hp, hc⟩ : P.Numbered ∧ P.Placed ∧ P.Cached := by
    refine run.invariant (fun P => P.Numbered ∧ P.Placed ∧ P.Cached)
      ⟨numbered_initial _, placed_initial_empty, cached_initial _⟩ ?_
    rintro P a ⟨hP, hp, hc⟩ ok
    exact ⟨hP.act a, hp.act ok, hc.act hP hp⟩
  obtain ⟨f, hf⟩ : ∃ f, P.Sessions f :=
    hr.invariant (fun P => ∃ f, P.Sessions f) ⟨_, sessions_initial _⟩
      fun P a hP ⟨f, hf⟩ => ⟨_, hf.act hP a⟩
  have session : ∀ r id w, P.ViewOf r id → P.store.view? id = some w → w.session = f r := by
    intro r id w h hw
    rw [hf.view id w hw, (h.session hf).2]
  constructor
  · intro id id' w w' hn hn' hw hw' hses ht
    have e := hc.entry id w hn hw
    rw [hses, ht, hc.entry id' w' hn' hw'] at e
    exact (Option.some.inj e).symm
  · exact hc.owned
  · intro r r' id h h'
    obtain ⟨hr, e⟩ := h.session hf
    obtain ⟨hr', e'⟩ := h'.session hf
    exact hf.inj r hr r' hr' (e.symm.trans e')
  · intro r r' id id' w w' h h' hw hw'
    rw [session r id w h hw, session r' id' w' h' hw']
    exact ⟨hf.inj r (h.session hf).1 r' (h'.session hf).1, congrArg f⟩
  · intro i v key id hv hres
    obtain ⟨w, st, hw, _, hst, hch, _⟩ := Store.view?_of_get hP.store hres
    refine ⟨w, store_act_get hv ▸ hw, ?_⟩
    rw [Heap.slot_eq, hst, Option.bind_some, hch, Option.getD_some]
  · intro session t id w ht e hw
    exact (hp.inj _ _ ht (.target hw) (hc.address _ _ _ w e hw)).symm
  · exact hc.liveViews hP
  · exact hc.root
  · intro i v key id hv hres hnew addr j
    exact hc.pruned hP hp hv hres hnew addr j

/-- A table is wrapped and its row is read. -/
def rowRead : Program :=
  (initial .empty).after [.newArray 7 [], .newArray 8 [.array 0],
    .wrap .any (.array 1) ⟨false, .empty⟩, .get 0 (.index 0)]

/-- The row is replaced, and the view and the handle of it are dropped. -/
def rowDropped : Program :=
  rowRead.after [.set 0 (.index 0) (.bool true), .release 1, .discard 1]

/-- A new row comes to lie where the old one was, is stored and read. -/
def rowReplaced : Program :=
  rowDropped.after [.newArray 7 [], .set 0 (.index 0) (.array 2), .get 0 (.index 0)]

theorem alive_rowDropped {t : Handle} (h : rowDropped.Alive t) : t = .array 1 := by
  induction h with
  | held hv hh =>
    obtain rfl := List.mem_singleton.mp hv
    exact Handle.holds_toValue (t := .array 1) hh
  | @target id w e =>
    have reached : Reached .empty rowDropped := reached_after (reached_after .start _) _
    have hlt : id < 2 := (reached.numbered.store.view id w e).1
    match id, hlt with
    | 0, _ => exact (congrArg View.target (Option.some.inj e)).symm
    | 1, _ => cases e
  | @content b t st x _ hc hh ih =>
    subst ih
    cases st with
    | field k => cases hc
    | index i =>
      obtain rfl := List.mem_singleton.mp (List.mem_of_getElem? hc)
      exact absurd hh (Value.not_holds_bool true t)

theorem permitted_rowReplaced : Runs Permitted (initial .empty) rowReplaced := by
  have noUse : ∀ {P : Program} {a : Act}, (∀ x, ¬ a.Uses x) → a.address? = none →
      P.Permitted a :=
    fun hu ha => permitted_of_no_use (fun x t hx => absurd hx (hu x)) ha
  have first : (initial .empty).Permitted (.newArray 7 []) :=
    ⟨fun x t hx => absurd hx List.not_mem_nil,
      fun _ _ t ht => absurd ht (not_alive_initial_empty t)⟩
  have read : Runs Permitted (initial .empty) rowRead := by
    refine .act _ (.act _ (.act _ (.act _ .start first) ?_) ?_) (noUse (fun _ h => h) rfl)
    · refine ⟨fun x t hx ht => ?_, fun address e t ht => ?_⟩
      · obtain rfl := List.mem_singleton.mp hx
        exact .held (v := .array 0) List.mem_cons_self ht
      · obtain rfl : 8 = address := Option.some.inj e
        rcases ht.of_act first with ht | rfl
        · exact absurd ht (not_alive_initial_empty t)
        · exact (by decide : 7 ≠ 8)
    · refine ⟨fun x t hx ht => ?_, nofun⟩
      obtain rfl : x = .array 1 := hx
      exact .held (v := .array 1) List.mem_cons_self ht
  have dropped : Runs Permitted (initial .empty) rowDropped := by
    refine .act _ (.act _ (.act _ read ?_) (noUse (fun _ h => h) rfl)) (noUse (fun _ h => h) rfl)
    refine permitted_of_no_use (fun x t hx => ?_) rfl
    obtain rfl : x = .bool true := hx
    exact Value.not_holds_bool true t
  refine .act _ (.act _ (.act _ dropped ?_) ?_) (noUse (fun _ h => h) rfl)
  · refine ⟨fun x t hx => absurd hx List.not_mem_nil, fun address e t ht => ?_⟩
    obtain rfl : 7 = address := Option.some.inj e
    obtain rfl := alive_rowDropped ht
    exact (by decide : 8 ≠ 7)
  · refine ⟨fun x t hx ht => ?_, nofun⟩
    obtain rfl : x = .array 2 := hx
    exact .held (v := .array 2) List.mem_cons_self ht

/-- The new row gets a view of its own, though the table has the old view under its address. -/
theorem coherent_of_permitted_rowReplaced : rowReplaced.Coherent ∧
    rowReplaced.store.heap.address 2 = rowReplaced.store.heap.address 0 ∧
    rowReplaced.store.view? 1 = none ∧
    rowReplaced.store.view? 2 = some ⟨.array 2, .any, 0, ⟨false, .empty⟩, 1⟩ :=
  ⟨coherent_of_permitted permitted_rowReplaced, rfl, rfl, rfl⟩

end

end GuardedData.Program
