import GuardedData.Proofs.Check.Places
import GuardedData.Proofs.Guard.Program
import GuardedData.Proofs.Heap.Forest

/-!
# Validity of guarded data

`Guards session D t` says that `t` is guarded data of a session: it is reached
from the wrapped `D` or from the target of a live view. While guarded data is a
forest and each view whose target lies in `D` has the schema of the path to it
(`Sound`), a write that obeys `GuardedOnly` adds no failing place: the value is
checked against the schema of the one slot that changes (`failsAt_of_write`),
and any other place has the node and the value that it had before.
-/

namespace GuardedData

/-- No union in the schema accepts an object or an array. -/
def Schema.UnionsScalar (c : Catalogue) (S : Schema) : Prop :=
  ∀ branches, Within (.union branches) S → ∀ (h : Heap) (t : Handle),
    conforms c h (.union branches) t.toValue = false

namespace Store

/-- The object or array is reached from `D`, or from the target of a live view of the session. -/
def Guards (s : Store) (session : SessionId) (D t : Handle) : Prop :=
  s.heap.Reaches D.toValue t ∨
    ∃ id v, s.view? id = some v ∧ v.session = session ∧ s.heap.Reaches v.target.toValue t

/-- Guarded data is a forest, and each view of the session has the catalogue and, if its target
lies in `D`, the schema of the path to it. -/
structure Sound (c : Catalogue) (S : Schema) (session : SessionId) (D : Handle) (s : Store) :
    Prop where
  started : session < s.nextSession
  forest : s.heap.Forest D (s.Guards session D)
  schema : ∀ id v p, s.view? id = some v → v.session = session →
    s.heap.follow D.toValue p = some v.target.toValue → v.schema = S.descend p
  catalogue : ∀ id v, s.view? id = some v → v.session = session → v.options.catalogue = c

end Store

/-- Guarded data is changed only by writes of fresh trees through views of the session. -/
inductive GuardedOnly (session : SessionId) (D : Handle) (P : Program) : Act → Prop where
  | write (id : ViewId) (v : View) (key : Key) (x : Value) : P.store.view? id = some v →
      v.session = session → P.store.heap.IsTree x →
      (∀ t, P.store.heap.Reaches x t → ¬ P.store.Guards session D t) →
      GuardedOnly session D P (.set id key x)
  /-- Any other act, if it leaves guarded data as it is: every read, wrap, copy and drop does. -/
  | other (a : Act) :
      (∀ t, P.store.Guards session D t → P.store.heap.SameCell (P.store.act a).heap t) →
      GuardedOnly session D P a

/-! ## Schemas -/

namespace Schema

theorem UnionsScalar.of_within {c : Catalogue} {n S : Schema} (hS : S.UnionsScalar c)
    (hn : Within n S) : n.UnionsScalar c :=
  fun branches hb => hS branches (hb.trans hn)

theorem ownMismatch?_of_unionsScalar {n : Schema} {c : Catalogue} {h h' : Heap}
    (hc : c.KindOnly) (hu : n.UnionsScalar c) (v : Value) :
    n.ownMismatch? c h' v = n.ownMismatch? c h v := by
  refine ownMismatch?_congr hc n v ?_
  rintro branches rfl
  cases hv : v.handle? with
  | none =>
    rw [conforms, conforms,
      check_congr hc _ fun t ht => absurd ht (Heap.not_reaches_of_scalar hv)]
  | some t =>
    rw [Value.handle?_eq_some_iff.mp hv, hu branches .refl, hu branches .refl]

end Schema

/-! ## One write -/

namespace Heap

section
variable {c : Catalogue} {h : Heap} {S : Schema} {D T : Handle} {G : Handle → Prop} {key : Key}
  {st : PathStep} {x : Value}

theorem field_setSlot_cases (hw : h.Writable T key st) (v : Value) (k : String) (x : Value) :
    (v = T.toValue ∧ .field k = st ∧ (h.setSlot T key x).field v k = x) ∨
      (h.setSlot T key x).field v k = h.field v k := by
  cases hv : v.handle? with
  | none => cases v <;> first | exact .inr rfl | cases hv
  | some u =>
    obtain rfl := Value.handle?_eq_some_iff.mp hv
    rw [field_setSlot hw]
    split
    · next e => exact .inl ⟨e.1 ▸ rfl, e.2, rfl⟩
    · exact .inr rfl

/-- The node `n` has the inner places of the schema `S` at a path of `h` to the value `v`. -/
def Positioned (h : Heap) (S : Schema) (D : Handle) (n : Schema) (v : Value) : Prop :=
  ∀ t : Handle, v = t.toValue → ∃ p, h.follow D.toValue p = some v ∧
    ∀ st, n.inner st = (S.descend p).inner st

theorem Positioned.root (h : Heap) (S : Schema) (D : Handle) : h.Positioned S D S D.toValue :=
  fun _ _ => ⟨[], rfl, fun _ => rfl⟩

theorem Positioned.child {n m : Schema} {t : Handle} {w : Value}
    (hp : h.Positioned S D n t.toValue) (hc : h.child? t st = some w) (hm : n.inner st = m) :
    h.Positioned S D m w := by
  intro u hu
  subst hu
  obtain ⟨p, hf, hn⟩ := hp t rfl
  refine ⟨p ++ [st], follow_snoc hf hc, fun st' => ?_⟩
  rw [Schema.descend_snoc, ← hn, hm]

theorem Positioned.field {n m : Schema} {v : Value} {k : String} (hp : h.Positioned S D n v)
    (hm : n.inner (.field k) = m) : h.Positioned S D m (h.field v k) := by
  rcases h.field_cases v k with e | ⟨r, rfl, hc⟩
  · intro t ht
    rw [e] at ht
    cases t <;> cases ht
  · exact Positioned.child (t := .object r) hp hc hm

/-- A write of a fresh value that its slot accepts adds no failing place. -/
theorem failsAt_of_write (hc : c.KindOnly) (hw : h.Writable T key st) (hT : G T)
    (fresh : ∀ u, h.Reaches x u → ¬ G u)
    (hx : ∀ p, h.follow D.toValue p = some T.toValue →
      check c h ((S.descend p).inner st) x = .ok ())
    {n : Schema} {v : Value} {p : Path} (hn : n.WellFormed) (hu : n.UnionsScalar c)
    (hpos : h.Positioned S D n v) (hf : FailsAt c (h.setSlot T key x) n v p) :
    FailsAt c h n v p := by
  -- No place fails in the value that was written.
  have written : ∀ {m : Schema} {q : Path}, h.Positioned S D m T.toValue →
      ¬ FailsAt c (h.setSlot T key x) (m.inner st) x q := by
    intro m q hpos hf
    obtain ⟨p, hp, hm⟩ := hpos T rfl
    rw [hm] at hf
    exact check_eq_ok_iff.mp (hx p hp) q (hf.congr hc (sameCell_of_fresh hT fresh))
  obtain ⟨m, w, hp, hm⟩ := hf
  induction hp with
  | @here n v e =>
    exact ⟨n, v, .here e, Schema.ownMismatch?_of_unionsScalar hc hu v ▸ hm⟩
  | modifier e _ ih =>
    obtain ⟨hi, hin⟩ := Schema.within_of_opens e
    refine (failsAt_of_opens e).mpr (ih (hn.of_within hi) (hu.of_within hi) ?_ hm)
    intro t ht
    obtain ⟨p, hp, hs⟩ := hpos t ht
    exact ⟨p, hp, fun st' => (hin st').symm.trans (hs st')⟩
  | @field fields k s n v w p hv hv' hk hp ih =>
    have hs : (Schema.object fields).inner (.field k) = s := Schema.inner_object (hn _ .refl) hk
    have hi : Schema.Within s (.object fields) := .field hk .refl
    rcases field_setSlot_cases hw v k x with ⟨rfl, rfl, e⟩ | e
    · rw [e, ← hs] at hp
      exact absurd ⟨n, w, hp, hm⟩ (written hpos)
    · rw [e] at ih
      exact failsAt_field.mpr ⟨hv, hv', s, hk,
        ih (hn.of_within hi) (hu.of_within hi) (hpos.field hs) hm⟩
  | @element items n r i y w p hy hp ih =>
    have hi : Schema.Within items (.array items) := .array .refl
    have hy : (h.setSlot T key x).child? (.array r) (.index i) = some y := hy
    rcases child?_setSlot_cases hw hy with ⟨rfl, rfl, rfl⟩ | ⟨_, hy⟩
    · rw [← Schema.inner_array items i] at hp
      exact absurd ⟨n, w, hp, hm⟩ (written hpos)
    · refine failsAt_element.mpr ⟨r, y, rfl, hy, ?_⟩
      exact ih (hn.of_within hi) (hu.of_within hi)
        (hpos.child hy (Schema.inner_array items i)) hm

end

end Heap

/-! ## The invariant -/

namespace Store

section
variable {c : Catalogue} {S : Schema} {session : SessionId} {D t u : Handle} {s : Store} {a : Act}

theorem Guards.reaches (hg : s.Guards session D t) (hr : s.heap.Reaches t.toValue u) :
    s.Guards session D u := by
  rcases hg with h | ⟨id, v, hv, hses, h⟩
  · exact .inl (h.trans hr)
  · exact .inr ⟨id, v, hv, hses, h.trans hr⟩

theorem Guards.child {st : PathStep} (hg : s.Guards session D t)
    (hc : s.heap.child? t st = some u.toValue) : s.Guards session D u :=
  hg.reaches (.of_child hc (.refl _ u))

theorem guards_of_view {id : ViewId} {v : View} (hv : s.view? id = some v)
    (hses : v.session = session) : s.Guards session D v.target :=
  .inr ⟨id, v, hv, hses, .refl _ _⟩

/-- A view of the session after an act was there before, or reads a slot of one that was. -/
theorem origin_in_session {id : ViewId} {w : View} (hb : session < s.nextSession)
    (e : (s.act a).view? id = some w) (hw : w.session = session) :
    (∃ v, s.view? id = some v ∧ v.session = session ∧ v.Same w) ∨
    (∃ i v st, s.view? i = some v ∧ v.session = session ∧
      s.heap.child? v.target st = some w.target.toValue ∧ w.schema = v.schema.inner st ∧
      w.options = v.options) := by
  cases origin_of_act e with
  | kept v hv hs => exact .inl ⟨v, hv, hs.session ▸ hw, hs⟩
  | read i v key st _ hi _ _ hc _ ew _ =>
    rw [ew] at hw
    exact .inr ⟨i, v, st, hi, hw, hc, by rw [ew], by rw [ew]⟩
  | wrapped schema o _ _ ew _ _ =>
    rw [ew] at hw
    exact absurd hw (Nat.ne_of_gt hb)

/-- Wrapping a tree starts a session whose guarded data is sound. -/
theorem sound_wrap (hn : s.Numbered) (hD : s.heap.IsTree D.toValue) (quiet : Bool) :
    Sound c S s.nextSession D (s.act (.wrap S D.toValue ⟨quiet, c⟩)) := by
  have hh : (s.act (.wrap S D.toValue ⟨quiet, c⟩)).heap = s.heap := heap_wrap s S D.toValue _
  have only : ∀ id w, (s.act (.wrap S D.toValue ⟨quiet, c⟩)).view? id = some w →
      w.session = s.nextSession → w.target = D ∧ w.schema = S ∧ w.options.catalogue = c := by
    intro id w e hw
    obtain ⟨ea, _⟩ := wrapped_of_session hn e hw
    simp only [Act.wrap.injEq, Handle.toValue_inj] at ea
    obtain ⟨rfl, rfl, ho⟩ := ea
    exact ⟨rfl, rfl, by rw [← ho]⟩
  have reached : ∀ t, Guards (s.act (.wrap S D.toValue ⟨quiet, c⟩)) s.nextSession D t →
      s.heap.Reaches D.toValue t := by
    rintro t (hr | ⟨id, v, hv, hses, hr⟩)
    · exact hh ▸ hr
    · rw [hh, (only id v hv hses).1] at hr
      exact hr
  constructor
  · rcases s.wrap_cases S D.toValue ⟨quiet, c⟩ with ⟨_, _, e⟩ | ⟨t, _, _, hs⟩
    · simp at e
    · simp [act, hs, addRoot]
  · refine hD.forest.congr reached (fun t _ => ?_) (.inl (.refl _ D)) fun ha hc => ha.child hc
    rw [hh]
    exact .refl _ t
  · intro id v p hv hses hp
    obtain ⟨ht, hsch, _⟩ := only id v hv hses
    rw [hh, ht] at hp
    rw [hD.acyclic (.refl _ D) hp, hsch, Schema.descend_nil]
  · exact fun id v hv hses => (only id v hv hses).2.2

theorem Sound.of_same (hs : Sound c S session D s)
    (same : ∀ t, s.Guards session D t → s.heap.SameCell (s.act a).heap t) :
    Sound c S session D (s.act a) := by
  have cells : ∀ {t}, s.Guards session D t → ∀ u, s.heap.Reaches t.toValue u →
      s.heap.SameCell (s.act a).heap u :=
    fun hg u hr => same u (hg.reaches hr)
  have target : ∀ {id w}, (s.act a).view? id = some w → w.session = session →
      s.Guards session D w.target := by
    intro id w e hw
    rcases origin_in_session hs.started e hw with ⟨v, hv, hses, hv'⟩ | ⟨i, v, st, hv, hses, hc, _⟩
    · exact hv'.target ▸ guards_of_view hv hses
    · exact (guards_of_view hv hses).child hc
  have fewer : ∀ t, (s.act a).Guards session D t → s.Guards session D t := by
    rintro t (hr | ⟨id, w, e, hw, hr⟩)
    · exact .inl ((Heap.reaches_congr (cells hs.forest.root)).mp hr)
    · have hg := target e hw
      exact hg.reaches ((Heap.reaches_congr (cells hg)).mp hr)
  constructor
  · exact Nat.lt_of_lt_of_le hs.started (s.counters_le_act a).2
  · exact hs.forest.congr fewer same (.inl (.refl _ D)) fun ha hc => ha.child hc
  · intro id w p e hw hp
    rw [Heap.follow_congr (cells hs.forest.root)] at hp
    rcases origin_in_session hs.started e hw with ⟨v, hv, hses, hv'⟩ |
      ⟨i, v, st, hv, hses, hc, hsch, _⟩
    · rw [hv'.target] at hp
      rw [hv'.schema]
      exact hs.schema id v p hv hses hp
    · -- The path leads through the slot that was read, since nothing else holds the target.
      have hg : s.Guards session D v.target := guards_of_view hv hses
      rcases p.eq_nil_or_concat with rfl | ⟨q, st', ep⟩
      · obtain e' := Handle.toValue_inj.mp (Option.some.inj hp)
        rw [← e'] at hc
        exact absurd hc (hs.forest.root_free hg)
      · rw [ep, List.concat_eq_append] at hp ⊢
        obtain ⟨b, hb, hc'⟩ := Heap.follow_snoc_inv hp
        obtain ⟨rfl, rfl⟩ := hs.forest.unshared (.inl ⟨q, hb⟩) hg hc' hc
        rw [hsch, hs.schema i v q hv hses hb, Schema.descend_snoc]
  · intro id w e hw
    rcases origin_in_session hs.started e hw with ⟨v, hv, hses, hv'⟩ | ⟨i, v, _, hv, hses, _, _, ho⟩
    · exact hv'.options ▸ hs.catalogue id v hv hses
    · exact ho ▸ hs.catalogue i v hv hses

/-- A write of a fresh tree keeps guarded data sound. -/
theorem Sound.of_write (hs : Sound c S session D s) {id : ViewId} {v : View} {key : Key}
    {st : PathStep} {x : Value} (hv : s.view? id = some v) (hses : v.session = session)
    (hw : s.heap.Writable v.target key st) (hx : s.heap.IsTree x)
    (fresh : ∀ t, s.heap.Reaches x t → ¬ s.Guards session D t) :
    Sound c S session D { s with heap := s.heap.setSlot v.target key x } := by
  have hT : s.Guards session D v.target := guards_of_view hv hses
  have split : ∀ {t u p}, s.Guards session D t →
      (s.heap.setSlot v.target key x).follow t.toValue p = some u.toValue →
      (s.heap.follow t.toValue p = some u.toValue ∧ s.Guards session D u) ∨ s.heap.Reaches x u :=
    fun ht hp => hs.forest.follow_setSlot hT hw fresh ht hp
  constructor
  · exact hs.started
  · refine hs.forest.setSlot hw hx fresh ?_ (.inl (.refl _ D)) fun ha hc => ha.child hc
    rintro u (⟨p, hp⟩ | ⟨i, w, hi, hw', p, hp⟩)
    · exact (split hs.forest.root hp).imp_left And.right
    · exact (split (guards_of_view hi hw') hp).imp_left And.right
  · intro i w p hi hw' hp
    rcases split hs.forest.root hp with ⟨hp, _⟩ | hr
    · exact hs.schema i w p hi hw' hp
    · have hg : s.Guards session D w.target := guards_of_view hi hw'
      exact absurd hg (fresh _ hr)
  · exact hs.catalogue

end

end Store

/-! ## Runs -/

namespace Program

section
variable {c : Catalogue} {S : Schema} {session : SessionId} {D : Handle} {P : Program} {a : Act}

/-- An act that obeys the rule leaves guarded data as it is, or writes a fresh tree that the
schema of the slot accepts. -/
theorem guardedOnly_cases (ok : GuardedOnly session D P a) :
    (∀ t, P.store.Guards session D t → P.store.heap.SameCell (P.store.act a).heap t) ∨
    ∃ id v key st x, P.store.view? id = some v ∧ v.session = session ∧
      P.store.heap.Writable v.target key st ∧
      check v.options.catalogue P.store.heap (v.schema.inner st) x = .ok () ∧
      P.store.heap.IsTree x ∧ (∀ t, P.store.heap.Reaches x t → ¬ P.store.Guards session D t) ∧
      P.store.act a = { P.store with heap := P.store.heap.setSlot v.target key x } := by
  cases ok with
  | other _ same => exact .inl same
  | write id v key x hv hses hx fresh =>
    simp only [Store.act, hv]
    rcases P.store.set_cases v key x with ⟨e, _⟩ | ⟨st, hw, hck, _, e⟩
    · exact .inl fun t _ => by rw [e]; exact .refl _ t
    · exact .inr ⟨id, v, key, st, x, hv, hses, hw, hck, hx, fresh, e⟩

theorem sound_act (hs : P.store.Sound c S session D) (ok : GuardedOnly session D P a) :
    (P.act a).store.Sound c S session D := by
  rcases guardedOnly_cases ok with same | ⟨id, v, key, st, x, hv, hses, hw, _, hx, fresh, e⟩
  · exact hs.of_same same
  · rw [store_act, e]
    exact hs.of_write hv hses hw hx fresh

theorem failsAt_of_act (hc : c.KindOnly) (hS : S.WellFormed) (hu : S.UnionsScalar c)
    (hs : P.store.Sound c S session D) (ok : GuardedOnly session D P a) {p : Path}
    (hf : FailsAt c (P.act a).store.heap S D.toValue p) :
    FailsAt c P.store.heap S D.toValue p := by
  rcases guardedOnly_cases ok with same | ⟨id, v, key, st, x, hv, hses, hw, hck, _, fresh, e⟩
  · exact hf.congr hc fun t hr => same t (.inl hr)
  · rw [store_act, e] at hf
    refine Heap.failsAt_of_write hc hw (Store.guards_of_view hv hses) fresh ?_ hS hu
      (.root _ S D) hf
    intro q hq
    rwa [← hs.schema id v q hv hses hq, ← hs.catalogue id v hv hses]

/-- While a wrapped tree is changed only by writes of fresh trees through the views of its
session, no act adds a failing place to it; if it is valid at first it stays valid. -/
theorem valid_of_guardedOnly {h : Heap} {P₀ : Program} (h0 : Reached h P₀)
    (hD : P₀.store.heap.IsTree D.toValue) (hc : c.KindOnly) (hS : S.WellFormed)
    (hu : S.UnionsScalar c) (quiet : Bool)
    (run : Runs (GuardedOnly P₀.store.nextSession D) (P₀.act (.wrap S D.toValue ⟨quiet, c⟩)) P) :
    (∀ a, GuardedOnly P₀.store.nextSession D P a →
      ∀ p, FailsAt c (P.act a).store.heap S D.toValue p →
        FailsAt c P.store.heap S D.toValue p) ∧
    (check c P₀.store.heap S D.toValue = .ok () → check c P.store.heap S D.toValue = .ok ()) := by
  have start : (P₀.act (.wrap S D.toValue ⟨quiet, c⟩)).store.heap = P₀.store.heap :=
    Store.heap_wrap _ _ _ _
  have inv : P.store.Sound c S P₀.store.nextSession D ∧
      ∀ p, FailsAt c P.store.heap S D.toValue p → FailsAt c P₀.store.heap S D.toValue p := by
    refine run.invariant (fun P => P.store.Sound c S P₀.store.nextSession D ∧
      ∀ p, FailsAt c P.store.heap S D.toValue p → FailsAt c P₀.store.heap S D.toValue p) ?_ ?_
    · exact ⟨Store.sound_wrap h0.numbered.store hD quiet, fun p hf => start ▸ hf⟩
    · rintro P a ⟨hs, hfs⟩ ok
      exact ⟨sound_act hs ok, fun p hf => hfs p (failsAt_of_act hc hS hu hs ok hf)⟩
  refine ⟨fun a ok p hf => failsAt_of_act hc hS hu inv.1 ok hf, fun hok => ?_⟩
  exact check_eq_ok_iff.mpr fun p hf => check_eq_ok_iff.mp hok p (inv.2 p hf)

def tableSchema : Schema := .array (.array (.literal (.bool true)))

def emptyTable : Program := (initial .empty).act (.newArray 0 [])

/-- It is wrapped, and a row is made beside it. -/
def rowBeside : Program :=
  (emptyTable.act (.wrap tableSchema (.array 0) ⟨false, .empty⟩)).act (.newArray 1 [])

/-- The row is stored in the table and read. -/
def rowStored : Program := (rowBeside.act (.set 0 (.index 0) (.array 1))).act (.get 0 (.index 0))

theorem sameCell_rowBeside (t : Handle) :
    emptyTable.store.heap.SameCell rowBeside.store.heap t := by
  cases t with
  | object r => rfl
  | array r =>
    show (emptyTable.store.heap.arrays.insert 1 [])[r]?.getD [] = emptyTable.store.heap.array r
    rw [Std.ExtTreeMap.getElem?_insert]
    split
    · next e =>
      rw [← Std.LawfulEqCmp.eq_of_compare e]
      rfl
    · rfl

theorem not_guards_rowBeside : ¬ rowBeside.store.Guards 0 (.array 0) (.array 1) := by
  have table : ∀ st, rowBeside.store.heap.child? (.array 0) st = none :=
    Heap.child?_of_array_nil rfl
  rintro (hr | ⟨id, v, hv, _, hr⟩)
  · cases Heap.eq_of_reaches_of_empty (t := .array 0) table hr
  · have hv : (if id = 0 then some _ else none) = some v :=
      (Store.view?_addRoot _ _ id).symm.trans hv
    split at hv
    · obtain rfl := Option.some.inj hv
      cases Heap.eq_of_reaches_of_empty (t := .array 0) table hr
    · cases hv

/-- The row is stored, and a Boolean in it. -/
theorem guardedOnly_rowStored : Runs (GuardedOnly 0 (.array 0))
    (emptyTable.act (.wrap tableSchema (.array 0) ⟨false, .empty⟩))
    (rowStored.act (.set 1 (.index 0) (.bool false))) := by
  have row : ∀ st, rowBeside.store.heap.child? (.array 1) st = none :=
    Heap.child?_of_array_nil rfl
  refine .act _ (.act _ (.act _ (.act _ .start ?_) ?_) ?_) ?_
  · exact .other _ fun t _ => sameCell_rowBeside t
  · refine .write 0 ⟨.array 0, tableSchema, 0, ⟨false, .empty⟩, 1⟩ (.index 0) (.array 1) rfl rfl
      (Heap.isTree_of_empty (t := .array 1) row) fun t ht => ?_
    obtain rfl := Heap.eq_of_reaches_of_empty (t := .array 1) row ht
    exact not_guards_rowBeside
  · exact .other _ fun t _ => .refl _ t
  · exact .write 1 ⟨.array 1, .array (.literal (.bool true)), 0, ⟨false, .empty⟩, 1⟩ (.index 0)
      (.bool false) rfl rfl (Heap.isTree_of_scalar rfl)
      fun t ht => absurd ht (Heap.not_reaches_of_scalar rfl)

/-- An empty table is wrapped, a row is stored in it, and a Boolean in the row. -/
theorem valid_of_guardedOnly_table : ∃ P : Program,
    P.store.heap.array 0 = [.array 1] ∧ P.store.heap.array 1 = [.bool false] ∧
      check .empty P.store.heap tableSchema (.array 0) = .ok () := by
  have hS : tableSchema.WellFormed := by
    intro fields hf
    rcases hf with _ | ⟨_ | ⟨_ | _⟩⟩
  have hu : tableSchema.UnionsScalar .empty := by
    intro branches hb
    rcases hb with _ | ⟨_ | ⟨_ | _⟩⟩
  refine ⟨rowStored.act (.set 1 (.index 0) (.bool false)), rfl, rfl, ?_⟩
  have h0 : Reached .empty emptyTable := .act _ .start trivial
  have hD : emptyTable.store.heap.IsTree (Handle.array 0).toValue :=
    Heap.isTree_of_empty (Heap.child?_of_array_nil rfl)
  exact (valid_of_guardedOnly h0 hD Catalogue.kindOnly_empty hS hu false
    guardedOnly_rowStored).2 rfl

end

end Program

end GuardedData
