import GuardedData.Proofs.Guard.Program

/-!
# The schemas of views

A view has the schema that it was made with: `MadeAlong r p id` says that the
reads along `p` from the root `r` made the view, and its schema is that of the
root descended along `p` (`Traced`). A read that makes a view extends the path
of the view that was read, whatever path led there; a later read that reaches
the target gets the same view with the path it has (`HandsOut`). So the last
view of a chain of reads (`ReadsTo`) has the schema of the chain only where the
objects on the chain are known to the session under the schemas of the chain,
or not at all (`schema_of_reads`).
-/

namespace GuardedData

namespace Program

/-- The reads along the path from the root made the view. -/
inductive MadeAlong (P : Program) (r : ViewId) : Path → ViewId → Prop where
  | root : r ∈ P.roots → MadeAlong P r [] r
  | read {p : Path} {st : PathStep} (rd : Read) : MadeAlong P r p rd.reader → rd ∈ P.reads →
      rd.fresh = true → rd.target.step? rd.key = some st →
      MadeAlong P r (p ++ [st]) rd.result

/-- Reads along the path, one after the other, lead from the root to the view. -/
inductive ReadsTo (P : Program) (r : ViewId) : Path → ViewId → Program → Prop where
  | start : ReadsTo P r [] r P
  | read {p : Path} {id w : ViewId} {P' : Program} {v : View} {key : Key} {st : PathStep} :
      ReadsTo P r p id P' → P'.store.view? id = some v → v.target.step? key = some st →
      (P'.store.get v key).result = .view w → ReadsTo P r (p ++ [st]) w (P'.act (.get id key))

/-- The last index is the path of the view that a chain of reads hands out. A live view that the
session has of the object or array keeps the path along which it was made; a new view gets the
path of the view that was read, and the step. -/
inductive HandsOut (P : Program) (r : ViewId) : Path → ViewId → Program → Path → Prop where
  | root : HandsOut P r [] r P []
  | again {p q q' : Path} {i id : ViewId} {P' : Program} {u : View} {key : Key} {st : PathStep}
      {t : Handle} : HandsOut P r p i P' q → P'.store.view? i = some u →
      u.target.step? key = some st → P'.store.heap.child? u.target st = some t.toValue →
      P'.store.lookup? u.session t = some id → P'.MadeAlong r q' id →
      HandsOut P r (p ++ [st]) id (P'.act (.get i key)) q'
  | fresh {p q : Path} {i : ViewId} {P' : Program} {u : View} {key : Key} {st : PathStep}
      {t : Handle} : HandsOut P r p i P' q → P'.store.view? i = some u →
      u.target.step? key = some st → P'.store.heap.child? u.target st = some t.toValue →
      P'.store.lookup? u.session t = none →
      HandsOut P r (p ++ [st]) P'.store.nextView (P'.act (.get i key)) (q ++ [st])

section
variable {h : Heap} {P P' : Program} {a : Act} {r id : ViewId} {p : Path}

/-! ## Views and the reads that made them -/

/-- A view is made once, and is no root then. -/
structure Logged (P : Program) : Prop where
  not_root : ∀ rd ∈ P.reads, rd.fresh = true → rd.result ∉ P.roots
  once : ∀ rd ∈ P.reads, ∀ rd' ∈ P.reads, rd.fresh = true → rd'.fresh = true →
    rd.result = rd'.result → rd = rd'

theorem result_of_fresh {s : Store} {v : View} {key : Key} {w : ViewId}
    (hr : (s.get v key).result = .view w) (hf : (!s.isAlive w) = true) : w = s.nextView :=
  (Store.get_new_view hr (by simpa using hf)).1

theorem Logged.not_root_act (hl : P.Logged) (hP : P.Numbered) {rd : Read}
    (hrd : rd ∈ (P.act a).reads) (hf : rd.fresh = true) : rd.result ∉ (P.act a).roots := by
  intro hroot
  rcases P.roots_act a with er | ⟨_, _, _, ea, er, _⟩ <;>
    rcases P.reads_act a with es | ⟨i, key, v, w, ea', hv, hr, es⟩ <;>
    rw [er] at hroot <;> rw [es] at hrd
  · exact hl.not_root rd hrd hf hroot
  · rcases List.mem_cons.mp hrd with rfl | hrd
    · rw [result_of_fresh hr hf] at hroot
      exact absurd (hP.root _ hroot) (Nat.lt_irrefl _)
    · exact hl.not_root rd hrd hf hroot
  · rcases List.mem_cons.mp hroot with e | hroot
    · exact absurd e (Nat.ne_of_lt (hP.read rd hrd).2)
    · exact hl.not_root rd hrd hf hroot
  · rw [ea] at ea'
    cases ea'

theorem Logged.once_act (hl : P.Logged) (hP : P.Numbered) {rd rd' : Read}
    (hrd : rd ∈ (P.act a).reads) (hrd' : rd' ∈ (P.act a).reads) (hf : rd.fresh = true)
    (hf' : rd'.fresh = true) (e : rd.result = rd'.result) : rd = rd' := by
  rcases P.reads_act a with es | ⟨i, key, v, w, ea, hv, hr, es⟩ <;> rw [es] at hrd hrd'
  · exact hl.once rd hrd rd' hrd' hf hf' e
  · rcases List.mem_cons.mp hrd with rfl | hrd <;> rcases List.mem_cons.mp hrd' with rfl | hrd'
    · rfl
    · rw [result_of_fresh hr hf] at e
      exact absurd e.symm (Nat.ne_of_lt (hP.read rd' hrd').2)
    · rw [result_of_fresh hr hf'] at e
      exact absurd e (Nat.ne_of_lt (hP.read rd hrd).2)
    · exact hl.once rd hrd rd' hrd' hf hf' e

theorem Reached.logged (hr : Reached h P) : P.Logged :=
  Reached.invariant Logged
    ⟨fun _ hrd => absurd hrd List.not_mem_nil, fun _ hrd => absurd hrd List.not_mem_nil⟩
    (fun _ _ hn hl => ⟨fun _ hrd hf => hl.not_root_act hn hrd hf,
      fun _ hrd _ hrd' hf hf' e => hl.once_act hn hrd hrd' hf hf' e⟩) hr

theorem MadeAlong.unique (hl : P.Logged) {q : Path} (hp : P.MadeAlong r p id)
    (hq : P.MadeAlong r q id) : p = q := by
  induction hp generalizing q with
  | root hr =>
    cases hq with
    | root _ => rfl
    | read rd _ hrd hf _ => exact absurd hr (hl.not_root rd hrd hf)
  | read rd _ hrd hf hst ih =>
    generalize e : rd.result = id at hq
    cases hq with
    | root hr => exact absurd (e ▸ hr) (hl.not_root rd hrd hf)
    | read rd' hq hrd' hf' hst' =>
      obtain rfl := hl.once rd hrd rd' hrd' hf hf' e
      rw [hst] at hst'
      rw [ih hq, Option.some.inj hst']

theorem MadeAlong.act (hm : P.MadeAlong r p id) (a : Act) : (P.act a).MadeAlong r p id := by
  induction hm with
  | root hr => exact .root (mem_roots_act hr a)
  | read rd _ hrd hf hst ih => exact .read rd ih (mem_reads_act hrd a) hf hst

/-- Each session has a root, and every live view of it was made by reads from that root and has
the schema of their path. -/
def Traced (P : Program) : Prop :=
  ∀ session, ∃ r S, ∀ id w, P.store.view? id = some w → w.session = session →
    (id ∈ P.roots → id = r ∧ w.schema = S) ∧ ∃ p, P.MadeAlong r p id ∧ w.schema = S.descend p

theorem traced_nextSession (hP : P.Numbered) (a : Act) :
    ∃ r S, ∀ id w, (P.act a).store.view? id = some w → w.session = P.store.nextSession →
      (id ∈ (P.act a).roots → id = r ∧ w.schema = S) ∧
        ∃ p, (P.act a).MadeAlong r p id ∧ w.schema = S.descend p := by
  rcases Classical.em (∃ S x o, a = .wrap S x o) with ⟨S, x, o, rfl⟩ | hne
  · refine ⟨P.store.nextView, S, fun id w e hw => ?_⟩
    obtain ⟨ea, rfl⟩ := Store.wrapped_of_session hP.store e hw
    obtain ⟨rfl, rfl, rfl⟩ := Act.wrap.inj ea
    exact ⟨fun _ => ⟨rfl, rfl⟩, [], .root (P.mem_roots_of_wrap _ _ _), rfl⟩
  · refine ⟨0, .any, fun id w e hw => ?_⟩
    exact absurd ⟨_, _, _, (Store.wrapped_of_session hP.store e hw).1⟩ hne

theorem Traced.act (ht : P.Traced) (hP : P.Numbered) (a : Act) : (P.act a).Traced := by
  intro session
  rcases Classical.em (session = P.store.nextSession) with rfl | hne
  · exact traced_nextSession hP a
  obtain ⟨r, S, hrs⟩ := ht session
  refine ⟨r, S, fun id w e hw => ?_⟩
  cases Store.origin_of_act e with
  | kept v hv hs =>
    obtain ⟨hroot, p, hm, hsch⟩ := hrs id v hv (hs.session ▸ hw)
    rw [hs.schema]
    refine ⟨fun hr => hroot ?_, p, hm.act a, hsch⟩
    rcases P.roots_act a with er | ⟨_, _, _, _, er, _⟩ <;> rw [er] at hr
    · exact hr
    · rcases List.mem_cons.mp hr with e' | hr
      · exact absurd e' (Nat.ne_of_lt (hP.store.view id v hv).1)
      · exact hr
  | read i v key st ea hv hid hst _ hr ew _ =>
    subst ea hid
    rw [ew] at hw ⊢
    obtain ⟨_, p, hm, hsch⟩ := hrs i v hv hw
    refine ⟨fun hroot => absurd (hP.root _ hroot) (Nat.lt_irrefl _), p ++ [st], ?_, ?_⟩
    · refine .read _ (hm.act _) (mem_reads_of_get hv hr) ?_ hst
      simp [Store.isAlive_eq, hP.store.not_alive]
    · rw [Schema.descend_snoc, ← hsch]
  | wrapped _ _ _ _ ew _ _ =>
    rw [ew] at hw
    exact absurd hw.symm hne

theorem Reached.traced (hr : Reached h P) : P.Traced := by
  refine Reached.invariant Traced ?_ (fun _ a hn ht => ht.act hn a) hr
  refine fun _ => ⟨0, .any, fun id w e => ?_⟩
  simp [initial, Store.ofHeap, Store.view?] at e

/-- Reads from a live root made every live view of its session. -/
theorem Reached.madeAlong {v w : View} (hP : Reached h P) (hr : r ∈ P.roots)
    (hv : P.store.view? r = some v) (hw : P.store.view? id = some w)
    (hs : w.session = v.session) :
    ∃ q, P.MadeAlong r q id ∧ w.schema = v.schema.descend q := by
  obtain ⟨r₀, S, traced⟩ := hP.traced v.session
  obtain ⟨rfl, hS⟩ := (traced r v hv rfl).1 hr
  obtain ⟨_, q, hq, hsch⟩ := traced id w hw hs
  exact ⟨q, hq, by rw [hsch, hS]⟩

end

/-! ## Chains of reads -/

section
variable {h : Heap} {P P' : Program} {r id : ViewId} {v : View} {p : Path}

theorem ReadsTo.reached (run : P.ReadsTo r p id P') (hP : Reached h P) : Reached h P' := by
  induction run with
  | start => exact hP
  | read _ _ _ _ ih => exact .act _ ih trivial

/-- A chain of reads changes no data and leaves the root alive, and its last view is that of the
object or array at the end of the chain. -/
theorem ReadsTo.view (run : P.ReadsTo r p id P') (hP : Reached h P)
    (hv : P.store.view? r = some v) :
    P'.store.heap = P.store.heap ∧ P'.roots = P.roots ∧
      (∃ v', P'.store.view? r = some v' ∧ v.Same v') ∧
      ∃ w, P'.store.view? id = some w ∧ w.session = v.session ∧
        P.store.heap.follow v.target.toValue p = some w.target.toValue := by
  induction run with
  | start => exact ⟨rfl, rfl, ⟨v, hv, .refl v⟩, v, hv, rfl, rfl⟩
  | @read p i id P' u key st run hu hst hr ih =>
    obtain ⟨hheap, hroots, ⟨v', hv', hsame⟩, u', hu', hses, hp⟩ := ih
    obtain rfl : u = u' := Option.some.inj (hu.symm.trans hu')
    have hn := (run.reached hP).numbered.store
    rw [store_act_get hu]
    refine ⟨by rw [Store.heap_get, hheap], hroots, ?_, ?_⟩
    · obtain ⟨v'', hv'', hsame'⟩ := Store.view?_get_of_view? hn key u hv'
      exact ⟨v'', hv'', hsame.trans hsame'⟩
    · obtain ⟨w, st', hw, hws, hst', hc, _⟩ := Store.view?_of_get hn hr
      obtain rfl : st = st' := Option.some.inj (hst.symm.trans hst')
      rw [hheap] at hc
      exact ⟨w, hw, hws.trans hses, Heap.follow_snoc hp hc⟩

/-- The view at the end of a chain was made along the path with which the chain hands it out. -/
theorem ReadsTo.handsOut (run : P.ReadsTo r p id P') (hP : Reached h P) (hr : r ∈ P.roots)
    (hv : P.store.view? r = some v) : ∃ q, P.HandsOut r p id P' q ∧ P'.MadeAlong r q id := by
  induction run with
  | start => exact ⟨[], .root, .root hr⟩
  | @read p i id P' u key st run hu hst hget ih =>
    obtain ⟨q, hq, hm⟩ := ih
    have hP' : Reached h P' := run.reached hP
    obtain ⟨_, hroots, ⟨v', hv', hsame⟩, u', hu', hses, _⟩ := run.view hP hv
    obtain rfl : u = u' := Option.some.inj (hu.symm.trans hu')
    obtain ⟨t, st', hst', hc, hcase⟩ := Store.get_view_cases hget
    obtain rfl : st = st' := Option.some.inj (hst.symm.trans hst')
    rcases hcase with ⟨hl, _⟩ | ⟨hl, hid, _⟩
    · -- The session has a view of the target: some reads from the root made it.
      obtain ⟨w, htab, hw, _⟩ := Store.lookup?_eq_some hl
      have hws : w.session = v'.session := by
        rw [(hP'.numbered.store.entry _ _ _ htab).2 w hw, hses, hsame.session]
      obtain ⟨q', hq', _⟩ := hP'.madeAlong (hroots ▸ hr) hv' hw hws
      exact ⟨q', .again hq hu hst hc hl hq', hq'.act _⟩
    · have hnew : (!P'.store.isAlive id) = true := by
        simp [hid, Store.isAlive_eq, hP'.numbered.store.not_alive]
      refine ⟨q ++ [st], ?_, .read _ (hm.act _) (mem_reads_of_get hu hget) hnew hst⟩
      rw [hid]
      exact .fresh hq hu hst hc hl

/-- What the session knows of a path: the live view of the object or array there, if it has one,
has the schema of the path, and so has any other prefix of the chain that leads there. -/
def Known (P : Program) (v : View) (p : Path) : Prop :=
  ∀ q t, q ≠ [] → q <+: p → P.store.heap.follow v.target.toValue q = some t.toValue →
    (∀ i u, P.store.lookup? v.session t = some i → P.store.view? i = some u →
      u.schema = v.schema.descend q) ∧
    ∀ q', q' ≠ [] → q' <+: p → P.store.heap.follow v.target.toValue q' = some t.toValue →
      v.schema.descend q' = v.schema.descend q

theorem Known.of_append {p' : Path} (hk : P.Known v (p ++ p')) : P.Known v p := by
  intro q t hq hqp hf
  have longer : ∀ {q}, q <+: p → q <+: p ++ p' := fun hq => hq.trans (List.prefix_append p _)
  obtain ⟨before, along⟩ := hk q t hq (longer hqp) hf
  exact ⟨before, fun q' hq' hqp' => along q' hq' (longer hqp')⟩

/-- After the reads along the path, each live view of the session has the schema of a view that
there was before, or that of a prefix of the path which leads to its target. -/
def Sourced (P : Program) (v : View) (p : Path) (P' : Program) : Prop :=
  ∀ t i u, P'.store.lookup? v.session t = some i → P'.store.view? i = some u →
    (∃ j u', P.store.lookup? v.session t = some j ∧ P.store.view? j = some u' ∧
      u.schema = u'.schema) ∨
    ∃ q, q ≠ [] ∧ q <+: p ∧ P.store.heap.follow v.target.toValue q = some t.toValue ∧
      u.schema = v.schema.descend q

theorem Sourced.schema {t : Handle} {st : PathStep} {u : View} (hs : P.Sourced v p P')
    (hk : P.Known v (p ++ [st]))
    (hf : P.store.heap.follow v.target.toValue (p ++ [st]) = some t.toValue)
    (hl : P'.store.lookup? v.session t = some id) (hu : P'.store.view? id = some u) :
    u.schema = v.schema.descend (p ++ [st]) := by
  obtain ⟨before, along⟩ := hk (p ++ [st]) t (by simp) (List.prefix_refl _) hf
  rcases hs t id u hl hu with ⟨j, u', hl', hu', e⟩ | ⟨q, hq, hqp, hqf, e⟩
  · rw [e, before j u' hl' hu']
  · rw [e, along q hq (hqp.trans (List.prefix_append p _)) hqf]

/-- A read adds the view that it hands out to those of its session. -/
theorem Sourced.get {i : ViewId} {u w : View} {key : Key} {st : PathStep}
    (hs : P.Sourced v p P') (hn : P'.store.Numbered) (hu : P'.store.view? i = some u)
    (hses : u.session = v.session) (hr : (P'.store.get u key).result = .view id)
    (hw : (P'.store.get u key).store.view? id = some w)
    (hf : P.store.heap.follow v.target.toValue (p ++ [st]) = some w.target.toValue)
    (hsch : w.schema = v.schema.descend (p ++ [st])) :
    P.Sourced v (p ++ [st]) (P'.act (.get i key)) := by
  intro t j x hl hx
  rw [store_act_get hu] at hl hx
  rw [← hses] at hl
  rcases Store.lookup?_of_get hr hw hl with ⟨rfl, rfl⟩ | hl
  · obtain rfl : w = x := Option.some.inj (hw.symm.trans hx)
    exact .inr ⟨p ++ [st], by simp, List.prefix_refl _, hf, hsch⟩
  · obtain ⟨x', _, hx', _⟩ := Store.lookup?_eq_some hl
    obtain ⟨y, hy, hsame⟩ := Store.view?_get_of_view? hn key u hx'
    obtain rfl : x = y := Option.some.inj (hx.symm.trans hy)
    rw [hsame.schema]
    rw [hses] at hl
    rcases hs t j x' hl hx' with before | ⟨q, hq, hqp, along⟩
    · exact .inl before
    · exact .inr ⟨q, hq, hqp.trans (List.prefix_append p _), along⟩

/-- Where the session knows the objects on the chain by the schemas of the chain only, the last
view has the schema of the chain. -/
theorem ReadsTo.schema (run : P.ReadsTo r p id P') (hP : Reached h P)
    (hv : P.store.view? r = some v) (hk : P.Known v p) :
    (∃ w, P'.store.view? id = some w ∧ w.schema = v.schema.descend p) ∧ P.Sourced v p P' := by
  induction run with
  | start => exact ⟨⟨v, hv, rfl⟩, fun t i u hl hu => .inl ⟨i, u, hl, hu, rfl⟩⟩
  | @read p i id P' u key st run hu hst hr ih =>
    obtain ⟨⟨u', hu', hsch⟩, hs⟩ := ih hk.of_append
    obtain rfl : u = u' := Option.some.inj (hu.symm.trans hu')
    obtain ⟨hheap, _, _, u', hu', hses, hp⟩ := run.view hP hv
    obtain rfl : u = u' := Option.some.inj (hu.symm.trans hu')
    have hn := (run.reached hP).numbered.store
    obtain ⟨w, st', hw, _, hst', hc, hcase⟩ := Store.view?_of_get hn hr
    obtain rfl : st = st' := Option.some.inj (hst.symm.trans hst')
    have hf : P.store.heap.follow v.target.toValue (p ++ [st]) = some w.target.toValue :=
      Heap.follow_snoc hp (hheap ▸ hc)
    have hwsch : w.schema = v.schema.descend (p ++ [st]) := by
      rcases hcase with ⟨hl, u₀, hu₀, hsame⟩ | ⟨_, e⟩
      · rw [hsame.schema]
        exact hs.schema hk hf (hses ▸ hl) hu₀
      · rw [e, hsch, Schema.descend_snoc]
    refine ⟨⟨w, ?_, hwsch⟩, hs.get hn hu hses hr hw hf hwsch⟩
    rw [store_act_get hu]
    exact hw

/-- A chain of reads from a root ends in the view of the object or array there. One path made
that view, which the reads of the chain tell, and the view has its schema; it has that of the
chain where the session knows the objects on the chain by no other. -/
theorem schema_of_reads (hP : Reached h P) (hr : r ∈ P.roots) (hv : P.store.view? r = some v)
    (run : P.ReadsTo r p id P') :
    ∃ w, P'.store.view? id = some w ∧
      P.store.heap.follow v.target.toValue p = some w.target.toValue ∧
      (∃! q, P'.MadeAlong r q id) ∧
      (∀ q, P'.MadeAlong r q id → P.HandsOut r p id P' q ∧ w.schema = v.schema.descend q) ∧
      (P.Known v p → w.schema = v.schema.descend p) := by
  have hP' : Reached h P' := run.reached hP
  obtain ⟨_, hroots, ⟨v', hv', hsame⟩, w, hw, hses, hp⟩ := run.view hP hv
  obtain ⟨q, hq, hsch⟩ := hP'.madeAlong (hroots ▸ hr) hv' hw (hses.trans hsame.session.symm)
  obtain ⟨q₀, hout, hq₀⟩ := run.handsOut hP hr hv
  obtain rfl : q₀ = q := hq₀.unique hP'.logged hq
  have only : ∀ q', P'.MadeAlong r q' id → q' = q₀ := fun q' hq' => hq'.unique hP'.logged hq
  rw [hsame.schema] at hsch
  refine ⟨w, hw, hp, ⟨q₀, hq, only⟩, fun q' hq' => ?_, fun hk => ?_⟩
  · rw [only q' hq']
    exact ⟨hout, hsch⟩
  · obtain ⟨⟨w', hw', e⟩, _⟩ := run.schema hP hv hk
    obtain rfl : w = w' := Option.some.inj (hw.symm.trans hw')
    exact e

/-- A wrapped table whose first row also lies inside the second. -/
def sharedRow : Program :=
  (initial .empty).after [.newArray 0 [], .newArray 1 [.array 0], .newArray 2 [.array 0, .array 1],
    .wrap (.array (.array .any)) (.array 2) ⟨false, .empty⟩]

theorem reached_sharedRow : Reached .empty sharedRow := reached_after .start _

/-- Read first by the longer path, the shared row has the schema of that path. -/
theorem schema_of_reads_sharedRow : ∃ P' w,
    sharedRow.ReadsTo 0 [.index 1, .index 0] 2 P' ∧ P'.store.view? 2 = some w ∧
      w.target = .array 0 ∧ (∃! q, P'.MadeAlong 0 q 2) ∧ w.schema = .any := by
  have run₁ : sharedRow.ReadsTo 0 [.index 1] 1 (sharedRow.act (.get 0 (.index 1))) :=
    .read (p := []) .start rfl rfl rfl
  have run₂ : sharedRow.ReadsTo 0 [.index 1, .index 0] 2
      ((sharedRow.act (.get 0 (.index 1))).act (.get 1 (.index 0))) :=
    .read (p := [.index 1]) run₁ rfl rfl rfl
  have prefixes : ∀ q : Path, q ≠ [] → q <+: [.index 1, .index 0] →
      q = [.index 1] ∨ q = [.index 1, .index 0] := by
    intro q hq hqp
    rcases List.prefix_cons_iff.mp hqp with rfl | ⟨q₁, rfl, hq₁⟩
    · exact absurd rfl hq
    · rcases List.prefix_cons_iff.mp hq₁ with rfl | ⟨q₂, rfl, hq₂⟩
      · exact .inl rfl
      · rw [List.prefix_nil.mp hq₂]
        exact .inr rfl
  have known : sharedRow.Known ⟨.array 2, .array (.array .any), 0, ⟨false, .empty⟩, 1⟩
      [.index 1, .index 0] := by
    intro q t hq hqp hf
    refine ⟨fun i u hl _ => ?_, fun q' hq' hqp' hf' => ?_⟩
    · obtain ⟨_, htab, _⟩ := Store.lookup?_eq_some hl
      rw [show sharedRow.store.table 0 = ∅ from rfl] at htab
      simp at htab
    · rcases prefixes q hq hqp with rfl | rfl <;> rcases prefixes q' hq' hqp' with rfl | rfl
      · rfl
      · cases Option.some.inj (hf.trans hf'.symm)
      · cases Option.some.inj (hf.trans hf'.symm)
      · rfl
  obtain ⟨w, hw, ht, hone, _, hs⟩ :=
    schema_of_reads reached_sharedRow (List.mem_singleton.mpr rfl) rfl run₂
  have ht : some (Handle.array 0).toValue = some w.target.toValue := ht
  exact ⟨_, w, run₂, hw, (Handle.toValue_inj.mp (Option.some.inj ht)).symm, hone, hs known⟩

/-- The shared row is read by the shorter path. -/
def rowKnown : Program := sharedRow.act (.get 0 (.index 0))

def secondRow : View := ⟨.array 1, .array .any, 0, ⟨false, .empty⟩, 1⟩

/-- Read from the second row, the shared row gives the view that there is. -/
theorem get_secondRow :
    ((rowKnown.act (.get 0 (.index 1))).store.get secondRow (.index 0)).result = .view 1 := by
  have made : (rowKnown.act (.get 0 (.index 1))).store =
      (rowKnown.store.addNested secondRow).2 := rfl
  have entry : ((rowKnown.act (.get 0 (.index 1))).store.table 0)[0]? = some 1 := by
    rw [made, Store.table_addNested]
    rfl
  exact Store.get_of_lookup? (t := .array 0) rfl (Store.lookup?_of_table entry rfl rfl)

/-- Read after the shorter path, it has the schema of the shorter path still. -/
theorem schema_ne_of_reads_sharedRow : ¬ ∀ (h : Heap) (P P' : Program) (r id : ViewId)
    (v w : View) (p : Path), Reached h P → r ∈ P.roots → P.store.view? r = some v →
      P.ReadsTo r p id P' → P'.store.view? id = some w → w.schema = v.schema.descend p := by
  intro hall
  have run₁ : rowKnown.ReadsTo 0 [.index 1] 2 (rowKnown.act (.get 0 (.index 1))) :=
    .read (p := []) .start rfl rfl rfl
  have run₂ : rowKnown.ReadsTo 0 [.index 1, .index 0] 1
      ((rowKnown.act (.get 0 (.index 1))).act (.get 2 (.index 0))) :=
    .read (p := [.index 1]) (v := secondRow) run₁ rfl rfl get_secondRow
  have hP : Reached .empty rowKnown := .act _ reached_sharedRow trivial
  have hP₁ : Reached .empty (rowKnown.act (.get 0 (.index 1))) := .act _ hP trivial
  have first : (rowKnown.act (.get 0 (.index 1))).store.view? 1 =
      some ⟨.array 0, .array .any, 0, ⟨false, .empty⟩, 1⟩ := rfl
  obtain ⟨w, hw, hsame⟩ := Store.view?_get_of_view? hP₁.numbered.store (.index 0) secondRow first
  rw [← store_act_get (i := 2) rfl] at hw
  have e := hall .empty rowKnown _ 0 1 _ w _ hP (List.mem_singleton.mpr rfl) rfl run₂ hw
  rw [hsame.schema] at e
  cases e

end

end Program

end GuardedData
