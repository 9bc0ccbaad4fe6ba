import GuardedData.Proofs.Check.Declared
import GuardedData.Proofs.Check.FirstFailure
import GuardedData.Proofs.Guard.Keys

/-!
# Reading the text of a path

`Path.parse? text` reads the steps back: names stand between dots, indices in
brackets. It gives a path exactly for the texts of paths whose names are plain,
which is that they have characters but neither a dot nor an opening bracket
(`parse?_eq_some_iff`). So for a schema with plain keys the location of a
mismatch tells the place.
-/

namespace GuardedData

/-- The name has characters, but none that starts another step. -/
structure PlainName (name : String) : Prop where
  nonempty : name.toList ≠ []
  noDot : '.' ∉ name.toList
  noBracket : '[' ∉ name.toList

def Schema.PlainKeys (s : Schema) : Prop :=
  ∀ fields, Schema.Within (.object fields) s → ∀ k n, (k, n) ∈ fields → PlainName k

namespace Path

def Plain (p : Path) : Prop := ∀ name, .field name ∈ p → PlainName name

/-- The text of a path as it stands after a step. -/
def attach (text : String) : List Char :=
  if isAttached text then text.toList else '.' :: text.toList

/-! ## The reader -/

/-- A name, and the path after it. -/
def field? (name : List Char) (rest : Option Path) : Option Path :=
  if name = [] then none else rest.map (.field (String.ofList name) :: ·)

/-- An index with the digits that it is written with, and the path after it. -/
def index? (digits : List Char) (rest : Option Path) : Option Path :=
  if Nat.toDigits 10 (numberOfDigits digits) = digits then
    rest.map (.index (numberOfDigits digits) :: ·)
  else none

mutual

/-- Reads what stands after a step. -/
def readNext? : List Char → Option Path
  | [] => some []
  | '.' :: rest => readName? [] rest
  | '[' :: rest => readIndex? [] rest
  | _ => none

/-- Reads a name that has some characters already, up to the next step. -/
def readName? (name : List Char) : List Char → Option Path
  | [] => field? name (some [])
  | '.' :: rest => field? name (readName? [] rest)
  | '[' :: rest => field? name (readIndex? [] rest)
  | c :: rest => readName? (name ++ [c]) rest

/-- Reads an index that has some digits already, up to its closing bracket. -/
def readIndex? (digits : List Char) : List Char → Option Path
  | [] => none
  | ']' :: rest => index? digits (readNext? rest)
  | c :: rest => readIndex? (digits ++ [c]) rest

end

/-- The steps of the path that the text spells. -/
def parse? (text : String) : Option Path := readNext? (attach text)

section
variable {p : Path} {name text : String} {i : Nat}

/-! ## The text after a step -/

theorem plain_nil : Plain [] := fun _ hm => absurd hm List.not_mem_nil

theorem plain_field_iff : Plain (.field name :: p) ↔ PlainName name ∧ p.Plain := by
  simp [Plain]

theorem plain_index_iff : Plain (.index i :: p) ↔ p.Plain := by
  simp [Plain]

theorem isAttached_iff :
    isAttached text = true ↔ text.toList = [] ∨ ∃ cs, text.toList = '[' :: cs := by
  rw [isAttached, Bool.or_eq_true, decide_eq_true_eq, String.isEmpty_iff, String.front_eq,
    String.front?_eq, ← String.toList_eq_nil_iff]
  cases text.toList with
  | nil => simp
  | cons c cs => simp

theorem attach_cases (text : String) : attach text = [] ∨
    (∃ cs, attach text = '.' :: cs) ∨ ∃ cs, attach text = '[' :: cs := by
  unfold attach
  split
  · next ht =>
    rcases isAttached_iff.mp ht with e | e
    · exact .inl e
    · exact .inr (.inr e)
  · exact .inr (.inl ⟨_, rfl⟩)

/-- A text that needs a dot has one before it, and no other text starts with a dot. -/
theorem attach_injective : Function.Injective attach := by
  have noDot : ∀ {text : String}, isAttached text = true → ∀ cs, text.toList ≠ '.' :: cs := by
    intro text ht cs e
    rw [isAttached_iff, e] at ht
    simp at ht
  intro a b e
  unfold attach at e
  refine String.toList_injective ?_
  split at e <;> split at e
  · exact e
  · next ha _ => exact absurd e (noDot ha _)
  · next hb => exact absurd e.symm (noDot hb _)
  · exact (List.cons.inj e).2

theorem toList_render_field (name : String) (p : Path) :
    (render (.field name :: p)).toList = name.toList ++ attach p.render := by
  rw [render, attach]
  split <;> simp

theorem toList_render_index (i : Nat) (p : Path) :
    (render (.index i :: p)).toList = '[' :: Nat.toDigits 10 i ++ ']' :: attach p.render := by
  rw [render, attach]
  split <;> simp

theorem attach_render_field (hn : PlainName name) (p : Path) :
    attach (render (.field name :: p)) = '.' :: name.toList ++ attach p.render := by
  have detached : ¬ isAttached (render (.field name :: p)) = true := by
    obtain ⟨c, cs, e⟩ := List.exists_cons_of_ne_nil hn.nonempty
    have hc : c ≠ '[' := fun hc => hn.noBracket (by simp [e, hc])
    simp [isAttached_iff, toList_render_field, e, hc]
  rw [attach, if_neg detached, toList_render_field, List.cons_append]

theorem attach_render_index (i : Nat) (p : Path) : attach (render (.index i :: p)) =
    '[' :: Nat.toDigits 10 i ++ ']' :: attach p.render := by
  rw [attach, if_pos, toList_render_index]
  exact isAttached_iff.mpr (.inr ⟨_, toList_render_index i p⟩)

/-! ## Reading a step -/

theorem readName?_attach (name : List Char) (text : String) :
    readName? name (attach text) = field? name (readNext? (attach text)) := by
  rcases attach_cases text with e | ⟨cs, e⟩ | ⟨cs, e⟩ <;> rw [e] <;> rfl

/-- A name ends where the next step starts. -/
theorem readName?_append {cs : List Char} (hdot : '.' ∉ cs) (hbracket : '[' ∉ cs)
    (before : List Char) (text : String) : readName? before (cs ++ attach text) =
      field? (before ++ cs) (readNext? (attach text)) := by
  induction cs generalizing before with
  | nil => rw [List.nil_append, List.append_nil, readName?_attach]
  | cons c cs ih =>
    obtain ⟨hd, hdot⟩ := not_or.mp (mt List.mem_cons.mpr hdot)
    obtain ⟨hb, hbracket⟩ := not_or.mp (mt List.mem_cons.mpr hbracket)
    rw [List.cons_append, readName?.eq_4 _ _ _ (Ne.symm hd) (Ne.symm hb), ih hdot hbracket,
      List.append_assoc, List.singleton_append]

theorem readIndex?_append {ds : List Char} (hds : ']' ∉ ds) (before rest : List Char) :
    readIndex? before (ds ++ ']' :: rest) = index? (before ++ ds) (readNext? rest) := by
  induction ds generalizing before with
  | nil => rw [List.nil_append, List.append_nil, readIndex?]
  | cons d ds ih =>
    obtain ⟨hd, hds⟩ := not_or.mp (mt List.mem_cons.mpr hds)
    rw [List.cons_append, readIndex?.eq_3 _ _ _ (Ne.symm hd), ih hds, List.append_assoc,
      List.singleton_append]

theorem index?_toDigits (i : Nat) (rest : Option Path) :
    index? (Nat.toDigits 10 i) rest = rest.map (.index i :: ·) := by
  rw [index?, numberOfDigits_toDigits, if_pos rfl]

theorem field?_toList (hn : PlainName name) (rest : Option Path) :
    field? name.toList rest = rest.map (.field name :: ·) := by
  rw [field?, if_neg hn.nonempty, String.ofList_toList]

theorem bracket_notMem_toDigits (i : Nat) : ']' ∉ Nat.toDigits 10 i := by
  intro hm
  exact absurd (Nat.isDigit_of_mem_toDigits (by decide) (by decide) hm) (by decide)

/-! ## Reading whole paths -/

theorem parse?_render (hp : p.Plain) : parse? p.render = some p := by
  unfold parse?
  induction p with
  | nil => rfl
  | cons st p ih =>
    cases st with
    | field name =>
      obtain ⟨hn, hp⟩ := plain_field_iff.mp hp
      rw [attach_render_field hn, List.cons_append, readNext?,
        readName?_append hn.noDot hn.noBracket, List.nil_append, field?_toList hn, ih hp,
        Option.map_some]
    | index i =>
      rw [attach_render_index, List.cons_append, readNext?,
        readIndex?_append (bracket_notMem_toDigits i), List.nil_append, index?_toDigits,
        ih (plain_index_iff.mp hp), Option.map_some]

/-! ## What is read -/

/-- The characters are the text of the path after a step, and its names are plain. -/
structure Spells (cs : List Char) (p : Path) : Prop where
  plain : p.Plain
  text : attach p.render = cs

theorem spells_of_field? {before cs : List Char} {rest : Option Path} (hdot : '.' ∉ before)
    (hbracket : '[' ∉ before) (hrest : ∀ q, rest = some q → Spells cs q)
    (e : field? before rest = some p) : Spells ('.' :: before ++ cs) p := by
  unfold field? at e
  split at e
  · cases e
  · next hne =>
    obtain ⟨q, hq, rfl⟩ := Option.map_eq_some_iff.mp e
    have hn : PlainName (String.ofList before) := by
      constructor <;> rwa [String.toList_ofList]
    refine ⟨plain_field_iff.mpr ⟨hn, (hrest q hq).plain⟩, ?_⟩
    rw [attach_render_field hn, String.toList_ofList, (hrest q hq).text]

theorem spells_of_index? {before cs : List Char} {rest : Option Path}
    (hrest : ∀ q, rest = some q → Spells cs q) (e : index? before rest = some p) :
    Spells ('[' :: before ++ ']' :: cs) p := by
  unfold index? at e
  split at e
  · next hbefore =>
    obtain ⟨q, hq, rfl⟩ := Option.map_eq_some_iff.mp e
    refine ⟨plain_index_iff.mpr (hrest q hq).plain, ?_⟩
    rw [attach_render_index, hbefore, (hrest q hq).text]
  · cases e

/-- Each reader gives a path only for its text. The induction is on the characters that are left,
for the three readers at once. -/
theorem spells_of_read (cs : List Char) :
    (∀ p, readNext? cs = some p → Spells cs p) ∧
      (∀ before p, '.' ∉ before → '[' ∉ before → readName? before cs = some p →
        Spells ('.' :: before ++ cs) p) ∧
      ∀ before p, readIndex? before cs = some p → Spells ('[' :: before ++ cs) p := by
  induction cs with
  | nil =>
    have nil : ∀ q, some [] = some q → Spells [] q := by
      rintro q ⟨⟩
      exact ⟨plain_nil, rfl⟩
    exact ⟨nil, fun before p hdot hbracket e => spells_of_field? hdot hbracket nil e, nofun⟩
  | cons c cs ih =>
    obtain ⟨ihnext, ihname, ihindex⟩ := ih
    have dot : ∀ q, readName? [] cs = some q → Spells ('.' :: cs) q :=
      fun q => ihname [] q List.not_mem_nil List.not_mem_nil
    have bracket : ∀ q, readIndex? [] cs = some q → Spells ('[' :: cs) q := ihindex []
    refine ⟨fun p e => ?_, fun before p hdot hbracket e => ?_, fun before p e => ?_⟩
    · unfold readNext? at e
      split at e
      · next e' => cases e'
      · next e' => cases e'; exact dot p e
      · next e' => cases e'; exact bracket p e
      · cases e
    · unfold readName? at e
      split at e
      · next e' => cases e'
      · next e' => cases e'; exact spells_of_field? hdot hbracket dot e
      · next e' => cases e'; exact spells_of_field? hdot hbracket bracket e
      · next hd hb e' =>
        cases e'
        rw [List.append_cons]
        refine ihname (before ++ [c]) p ?_ ?_ e
        · simpa [hdot] using fun h => hd h.symm
        · simpa [hbracket] using fun h => hb h.symm
    · unfold readIndex? at e
      split at e
      · next e' => cases e'
      · next e' => cases e'; exact spells_of_index? ihnext e
      · next e' =>
        cases e'
        rw [List.append_cons]
        exact ihindex (before ++ [c]) p e

/-- A path is read exactly from its own text, if its names are plain. -/
theorem parse?_eq_some_iff : parse? text = some p ↔ p.Plain ∧ p.render = text := by
  constructor
  · intro e
    obtain ⟨hp, ht⟩ := (spells_of_read (attach text)).1 p e
    exact ⟨hp, attach_injective ht⟩
  · rintro ⟨hp, rfl⟩
    exact parse?_render hp

example : parse? "[2][0].name" = some [.index 2, .index 0, .field "name"] := by cbv

end

end Path

/-! ## The places of a check -/

section
variable {c : Catalogue} {h : Heap} {s n : Schema} {v w : Value} {p : Path} {m : Mismatch}

theorem Schema.PlainKeys.of_within (hs : s.PlainKeys) (hn : Schema.Within n s) : n.PlainKeys :=
  fun fields hf => hs fields (hf.trans hn)

theorem Schema.PlainKeys.array (hs : s.PlainKeys) : (Schema.array s).PlainKeys := by
  rintro fields (_ | hf)
  exact hs fields hf

theorem Schema.PlainKeys.object {fields : List (String × Schema)}
    (hs : ∀ q ∈ fields, PlainName q.1 ∧ q.2.PlainKeys) : (Schema.object fields).PlainKeys := by
  intro fields' hf k n hm
  cases hf with
  | refl => exact (hs (k, n) hm).1
  | field hq hf => exact (hs _ hq).2 fields' hf k n hm

theorem Place.plain (hp : Place h s v p n w) (hs : s.PlainKeys) : p.Plain := by
  induction hp with
  | here _ => exact Path.plain_nil
  | modifier e _ ih => exact ih (hs.of_within (Schema.within_of_opens e).1)
  | field _ _ hm _ ih =>
    exact Path.plain_field_iff.mpr ⟨hs _ .refl _ _ hm, ih (hs.of_within (.field hm .refl))⟩
  | element _ _ ih => exact Path.plain_index_iff.mpr (ih (hs.of_within (.array .refl)))

theorem Place.readPath (hp : Place h s v p n w) : h.readPath v p = w := by
  induction hp with
  | here _ => rfl
  | modifier _ _ ih => exact ih
  | field _ _ _ _ ih => exact ih
  | @element items n r i x w p hx _ ih =>
    rw [Heap.readPath, List.foldl_cons, Heap.readStep, Heap.index, hx, Option.getD_some]
    exact ih

/-- The mismatch of a check is at one of its places. -/
theorem exists_place_of_check (e : check c h s v = .error m) : ∃ n w, Place h s v m.path n w ∧
    m.actual = w.kindName := by
  obtain ⟨before, l, after, ls, -, hd⟩ := firstRejected_of_check e
  have hl : l ∈ locations h s v := by simp [ls]
  rw [hd.path]
  exact ⟨l.node, l.value, place_of_mem_locations hl, hd.actual⟩

/-- The location of a mismatch is read back as the steps to the first place that is refused. It is
empty for the root alone, the value found there has the kind that the mismatch names, and no
mismatch at another place has the same location. -/
theorem path_of_location (hs : s.PlainKeys) (e : check c h s v = .error m) :
    FirstRejected c h (locations h s v) m ∧
      Path.parse? m.location = some m.path ∧
      (m.location = "" ↔ m.path = []) ∧
      (h.readPath v m.path).kindName = m.actual ∧
      ∀ (c' : Catalogue) (h' : Heap) (s' : Schema) (v' : Value) (m' : Mismatch), s'.PlainKeys →
        check c' h' s' v' = .error m' → m'.location = m.location → m'.path = m.path := by
  obtain ⟨n, w, hp, hactual⟩ := exists_place_of_check e
  have back : Path.parse? m.location = some m.path := Path.parse?_render (hp.plain hs)
  refine ⟨firstRejected_of_check e, back, ⟨fun hl => ?_, fun hl => ?_⟩, ?_,
    fun c' h' s' v' m' hs' e' hl => ?_⟩
  · rw [hl] at back
    exact (Option.some.inj back).symm
  · rw [Mismatch.location, hl, Path.render]
  · rw [hp.readPath, hactual]
  · obtain ⟨_, _, hp', _⟩ := exists_place_of_check e'
    have back' : Path.parse? m'.location = some m'.path := Path.parse?_render (hp'.plain hs')
    rw [hl, back] at back'
    exact (Option.some.inj back').symm

end

def sheet : Schema :=
  .object [("rows", .array (.array (.object [("name", .tag "string")])))]

/-- A sheet with an empty row, and a row with one cell that has a number as its name. -/
def sheetHeap : Heap :=
  (((Heap.empty.setArray 0 [.array 1, .array 2]).setArray 2 [.object 1]).setObject 1
    (Std.ExtTreeMap.insert ∅ "name" (.number 7))).setObject 0
    (Std.ExtTreeMap.insert ∅ "rows" (.array 0))

theorem plainKeys_sheet : sheet.PlainKeys := by
  have rows : PlainName "rows" := ⟨by decide, by decide, by decide⟩
  have name : PlainName "name" := ⟨by decide, by decide, by decide⟩
  have cell : (Schema.object [("name", .tag "string")]).PlainKeys :=
    .object (List.forall_mem_singleton.mpr ⟨name, nofun⟩)
  exact .object (List.forall_mem_singleton.mpr ⟨rows, cell.array.array⟩)

theorem path_of_location_sheet :
    Path.parse? "rows[1][0].name" =
        some [.field "rows", .index 1, .index 0, .field "name"] ∧
      (sheetHeap.readPath (.object 0)
        [.field "rows", .index 1, .index 0, .field "name"]).kindName = "number" := by
  have e : check .builtin sheetHeap sheet (.object 0) = .error ⟨.kind, "string", "number",
    [.field "rows", .index 1, .index 0, .field "name"]⟩ := by decide
  obtain ⟨-, back, -, kind, -⟩ := path_of_location plainKeys_sheet e
  exact ⟨back, kind⟩

end GuardedData
