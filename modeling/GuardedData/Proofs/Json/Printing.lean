import GuardedData.Heap.Json
import GuardedData.Json.Reader
import GuardedData.Proofs.Json.Documents
import GuardedData.Proofs.Json.Numbers

/-!
# Reading what was printed

The text of a document is read as the same document, but for its numbers
(`value_render`): a number that is not finite is printed as `null`, and an
integer of more than 64 bits is read as another number or is too great. For
the other numbers it is assumed that they are read back (`Number.ReadsBack`).
-/

namespace GuardedData

namespace Number

/-- A finite binary64 number is read from its text. -/
def ReadsBack : Number → Prop
  | .int _ => True
  | .float x => x.isFinite = true →
      read (Number.float x).render.toList = some (.float x, [])

/-- What is read from the text of a number. -/
def reread : Number → Option Json
  | .int n => (read (toString n).toList).map fun p => .number p.1
  | .float x => some (Json.ofFloat x)

/-- The first character of a number. -/
def Starts (c : Char) : Prop := c = '-' ∨ c.isDigit = true

theorem starts_of_readUnsigned {negative : Bool} {cs : List Char} {p : Number × List Char}
    (h : readUnsigned negative cs = some p) : ∃ c r, cs = c :: r ∧ c.isDigit = true := by
  cases cs with
  | nil => cases h
  | cons c r =>
    refine ⟨c, r, rfl, ?_⟩
    cases hc : c.isDigit with
    | true => rfl
    | false => simp [readUnsigned, hc] at h

theorem starts_of_read {cs : List Char} {p : Number × List Char} (h : read cs = some p) :
    ∃ c r, cs = c :: r ∧ Starts c := by
  unfold read at h
  split at h
  · exact ⟨_, _, rfl, .inl rfl⟩
  · obtain ⟨c, r, e, hc⟩ := starts_of_readUnsigned h
    exact ⟨c, r, e, .inr hc⟩

theorem readUnsigned_digits {negative : Bool} {ds : List Char} {p : Number × List Char}
    (hd : ∀ c ∈ ds, c.isDigit = true) (h : readUnsigned negative ds = some p) : p.2 = [] := by
  have hdrop : ds.dropWhile Char.isDigit = [] := calc
    ds.dropWhile Char.isDigit = (ds ++ []).dropWhile Char.isDigit := by rw [List.append_nil]
    _ = [] := List.dropWhile_append_of_pos hd
  unfold readUnsigned at h
  simp only [hdrop] at h
  split at h
  · cases h
  · split at h
    · cases h
    · rw [readTail_follows (show Follows [] from trivial)] at h
      split at h
      · rw [← Option.some.inj h]
      · obtain ⟨_, _, rfl⟩ := Option.map_eq_some_iff.mp h
        rfl

theorem toString_nat_cons (n : Nat) : ∃ c r, (toString n).toList = c :: r ∧
    ∀ c' ∈ c :: r, c'.isDigit = true := by
  rw [Nat.toString_eq_repr, Nat.toList_repr]
  have digits : ∀ c ∈ Nat.toDigits 10 n, c.isDigit = true :=
    fun _ => Nat.isDigit_of_mem_toDigits (by decide) (by decide)
  cases h : Nat.toDigits 10 n with
  | nil => exact absurd h Nat.toDigits_ne_nil
  | cons c r => exact ⟨c, r, rfl, h ▸ digits⟩

theorem starts_toString_int (n : Int) : ∃ c r, (toString n).toList = c :: r ∧ Starts c ∧
    ∀ p, read (c :: r) = some p → p.2 = [] := by
  cases n with
  | ofNat n =>
    obtain ⟨c, r, e, hd⟩ := toString_nat_cons n
    have hc := hd c List.mem_cons_self
    refine ⟨c, r, e, .inr hc, fun p h => ?_⟩
    have hminus : c ≠ '-' := by
      rintro rfl
      cases hc
    rw [read_of_ne_minus hminus] at h
    exact readUnsigned_digits hd h
  | negSucc n =>
    obtain ⟨c, r, e, hd⟩ := toString_nat_cons (n + 1)
    refine ⟨'-', c :: r, ?_, .inl rfl, fun p h => readUnsigned_digits hd h⟩
    show ("-" ++ toString (n + 1)).toList = _
    rw [String.toList_append, e]
    rfl

/-- The text of a number is `null`, or a number up to its end. -/
theorem render_cases {n : Number} (hn : n.ReadsBack) :
    (n.render = "null" ∧ n.reread = some .null) ∨
    ∃ c r, n.render.toList = c :: r ∧ Starts c ∧ (∀ p, read (c :: r) = some p → p.2 = []) ∧
      n.reread = (read (c :: r)).map fun p => .number p.1 := by
  cases n with
  | int n =>
    obtain ⟨c, r, e, hc, hp⟩ := starts_toString_int n
    exact .inr ⟨c, r, e, hc, hp, by rw [reread, e]⟩
  | float x =>
    by_cases hx : x.isFinite = true
    · have h := hn hx
      obtain ⟨c, r, e, hc⟩ := starts_of_read h
      rw [e] at h
      refine .inr ⟨c, r, e, hc, fun p hp => ?_, ?_⟩
      · rw [h] at hp
        rw [← Option.some.inj hp]
      · rw [h, reread, Json.ofFloat, if_pos hx]
        rfl
    · left
      rw [render, reread, Json.ofFloat, if_neg hx, if_neg hx]
      exact ⟨rfl, rfl⟩

end Number

namespace Json

open Number (Follows)

/-! ## Strings -/

theorem hex4?_control : ∀ n < 0x20,
    hex4? '0' '0' (hexDigit (n / 16)) (hexDigit (n % 16)) = some n := by decide

theorem stringBody_plain {c : Char} (h1 : c ≠ '"') (h2 : c ≠ '\\') (h3 : ¬ c.toNat < 0x20)
    (cs : List Char) :
    stringBody (c :: cs) = (stringBody cs).map fun p => (c :: p.1, p.2) := by
  rw [stringBody.eq_def]
  split
  · next e => cases e
  · next e => exact absurd (List.cons.inj e).1 h1
  · next e => exact absurd (List.cons.inj e).1 h2
  · next e => exact absurd (List.cons.inj e).1 h2
  · next e =>
    obtain ⟨rfl, rfl⟩ := List.cons.inj e
    simp [h2, h3]

theorem stringBody_control {c : Char} (h : c.toNat < 0x20) (cs : List Char) :
    stringBody ('\\' :: 'u' :: '0' :: '0' :: hexDigit (c.toNat / 16) :: hexDigit (c.toNat % 16)
      :: cs) = (stringBody cs).map fun p => (c :: p.1, p.2) := by
  have hl : isLeadingHalf c.toNat = false := by simp [isLeadingHalf]; omega
  have ht : isTrailingHalf c.toNat = false := by simp [isTrailingHalf]; omega
  rw [stringBody.eq_def]
  simp only [hex4?_control _ h, hl, ht, Char.ofNat_toNat]
  rfl

theorem stringBody_short {e c : Char} (h : shortEscape? e = some c) (hu : e ≠ 'u')
    (cs : List Char) :
    stringBody ('\\' :: e :: cs) = (stringBody cs).map fun p => (c :: p.1, p.2) := by
  rw [stringBody.eq_def]
  split
  · next e => cases e
  · next e => cases e
  · next e => exact absurd (List.cons.inj (List.cons.inj e).2).1 hu
  · next e =>
    obtain ⟨rfl, rfl⟩ := List.cons.inj (List.cons.inj e).2
    rw [h]
  · next hne e =>
    obtain ⟨rfl, rfl⟩ := List.cons.inj e
    exact absurd rfl (hne _ _ rfl)

theorem stringBody_escapeChar (c : Char) (cs : List Char) :
    stringBody (escapeChar c ++ cs) = (stringBody cs).map fun p => (c :: p.1, p.2) := by
  unfold escapeChar
  split
  iterate 7 exact stringBody_short rfl (by decide) cs
  · next h1 h2 _ _ _ _ _ =>
    split
    · next h => exact stringBody_control h cs
    · next h => exact stringBody_plain h1 h2 h cs

theorem stringBody_escaped (s rest : List Char) :
    stringBody (s.flatMap escapeChar ++ '"' :: rest) = some (s, rest) := by
  induction s with
  | nil => rfl
  | cons c s ih =>
    rw [List.flatMap_cons, List.append_assoc, stringBody_escapeChar, ih]
    rfl

theorem toList_renderString (s : String) :
    (renderString s).toList = '"' :: (s.toList.flatMap escapeChar ++ ['"']) := by
  simp [renderString]

theorem readString_escaped (s : String) (rest : List Char) :
    readString (s.toList.flatMap escapeChar ++ '"' :: rest) = some (s, rest) := by
  rw [readString, stringBody_escaped]
  simp

/-! ## Containers -/

/-- The text starts with a token, and that does not close a container. -/
def Opens (cs : List Char) : Prop :=
  ∃ c r, cs = c :: r ∧ isSpace c = false ∧ c ≠ ']' ∧ c ≠ '}'

theorem Opens.append {cs : List Char} (h : Opens cs) (rest : List Char) : Opens (cs ++ rest) := by
  obtain ⟨c, r, rfl, hc⟩ := h
  exact ⟨c, r ++ rest, rfl, hc⟩

theorem Opens.skipSpace {cs : List Char} (h : Opens cs) : skipSpace cs = cs := by
  obtain ⟨c, r, rfl, hc, _⟩ := h
  rw [Json.skipSpace, List.dropWhile_cons, hc]
  rfl

theorem opens_quote (cs : List Char) : Opens ('"' :: cs) :=
  ⟨'"', cs, rfl, rfl, by decide, by decide⟩

theorem intercalate_comma_cons (x y : List Char) (l : List (List Char)) :
    [','].intercalate (x :: y :: l) = x ++ ',' :: [','].intercalate (y :: l) := by
  rw [List.intercalate_cons_cons, List.append_assoc, List.singleton_append]

section
variable {α β : Type} {element : Reader α} {close : Char} {text : β → List Char}
  {result : β → Option α}

/-- Elements that are each read as their result are read one after the other. -/
theorem elements_intercalate (hclose : close = ']' ∨ close = '}') {bound : Nat} {b : β}
    {items : List β} (hbound : items.length < bound)
    (h : ∀ x ∈ b :: items, ∀ r, Follows r → element (text x ++ r) = (result x).map (·, r))
    (rest : List Char) :
    elements element close bound ([','].intercalate ((b :: items).map text) ++ close :: rest) =
      ((b :: items).mapM result).map (·, rest) := by
  induction items generalizing b bound with
  | nil =>
    obtain _ | bound := bound
    · cases hbound
    have hfollows : Follows (close :: rest) := by
      rcases hclose with rfl | rfl <;> simp [Follows]
    simp only [List.map_cons, List.map_nil, List.intercalate_singleton, elements,
      h b List.mem_cons_self _ hfollows, List.mapM_cons, List.mapM_nil]
    cases result b with
    | none => rfl
    | some a => rcases hclose with rfl | rfl <;> rfl
  | cons b' items ih =>
    obtain _ | bound := bound
    · cases hbound
    have hb := h b List.mem_cons_self
      (',' :: ([','].intercalate ((b' :: items).map text) ++ close :: rest)) (.inl rfl)
    have htail := ih (b := b') (Nat.lt_of_succ_lt_succ hbound)
      fun x hx => h x (List.mem_cons_of_mem _ hx)
    rw [List.map_cons, List.map_cons, intercalate_comma_cons, ← List.map_cons, List.append_assoc,
      List.cons_append, elements, hb, List.mapM_cons]
    cases result b with
    | none => rfl
    | some a =>
      show (elements element close bound _).map _ = _
      rw [htail]
      cases (b' :: items).mapM result <;> rfl

theorem length_le_intercalate (text : β → List Char) (b : β) (items : List β) :
    items.length ≤ ([','].intercalate ((b :: items).map text)).length := by
  induction items generalizing b with
  | nil => exact Nat.zero_le _
  | cons b' items ih =>
    have h := ih b'
    rw [List.map_cons, List.map_cons, intercalate_comma_cons, ← List.map_cons]
    simp only [List.length_append, List.length_cons]
    omega

theorem separated_intercalate (hclose : close = ']' ∨ close = '}') (items : List β)
    (hopens : ∀ x ∈ items, Opens (text x))
    (h : ∀ x ∈ items, ∀ r, Follows r → element (text x ++ r) = (result x).map (·, r))
    (rest : List Char) :
    separated element close ([','].intercalate (items.map text) ++ close :: rest) =
      (items.mapM result).map (·, rest) := by
  cases items with
  | nil => rcases hclose with rfl | rfl <;> rfl
  | cons b items =>
    have hopen : Opens ([','].intercalate ((b :: items).map text) ++ close :: rest) := by
      have hb := hopens b List.mem_cons_self
      cases items with
      | nil =>
        simpa only [List.map_cons, List.map_nil, List.intercalate_singleton] using hb.append _
      | cons b' items =>
        rw [List.map_cons, List.map_cons, intercalate_comma_cons, List.append_assoc]
        exact hb.append _
    have hlen := length_le_intercalate text b items
    obtain ⟨c, r, e, hc⟩ := hopen
    have hne : c ≠ close := by
      rcases hclose with rfl | rfl
      · exact hc.2.1
      · exact hc.2.2
    have hr : items.length < r.length + 1 := by
      have := congrArg List.length e
      simp only [List.length_append, List.length_cons] at this
      omega
    rw [separated, Opens.skipSpace ⟨c, r, e, hc⟩, e]
    simp only [if_neg hne]
    rw [← e]
    exact elements_intercalate hclose hr h rest

end

/-! ## Documents -/

theorem renderItems_eq (items : List Json) : renderItems items = items.map render := by
  induction items with
  | nil => rfl
  | cons j rest ih => rw [renderItems, ih, List.map_cons]

theorem renderMembers_eq (members : List (String × Json)) :
    renderMembers members = members.map fun p => renderString p.1 ++ ":" ++ render p.2 := by
  induction members with
  | nil => rfl
  | cons p rest ih => rw [renderMembers, ih, List.map_cons]

def memberText (p : String × Json) : List Char :=
  '"' :: (p.1.toList.flatMap escapeChar ++ '"' :: ':' :: (render p.2).toList)

theorem toList_render_array (items : List Json) : (render (.array items)).toList =
    '[' :: ([','].intercalate (items.map fun j => (render j).toList) ++ [']']) := by
  have hitems : (renderItems items).map String.toList = items.map fun j => (render j).toList := by
    rw [renderItems_eq, List.map_map]
    rfl
  rw [render, String.toList_append, String.toList_append, String.toList_intercalate, hitems]
  rfl

theorem toList_render_object (members : List (String × Json)) :
    (render (.object members)).toList =
      '{' :: ([','].intercalate (members.map memberText) ++ ['}']) := by
  have hmembers : (renderMembers members).map String.toList = members.map memberText := by
    rw [renderMembers_eq, List.map_map]
    refine List.map_congr_left fun p _ => ?_
    show (renderString p.1 ++ ":" ++ render p.2).toList = _
    rw [String.toList_append, String.toList_append, toList_renderString, memberText]
    simp
  rw [render, String.toList_append, String.toList_append, String.toList_intercalate, hmembers]
  rfl

theorem opens_of_starts {c : Char} (h : Number.Starts c) (r : List Char) : Opens (c :: r) := by
  have hspace : isSpace c = false := by
    cases hc : isSpace c with
    | false => rfl
    | true =>
      simp only [isSpace, Bool.or_eq_true, decide_eq_true_eq] at hc
      rcases hc with ((rfl | rfl) | rfl) | rfl <;> rcases h with h | h <;> cases h
  refine ⟨c, r, rfl, hspace, ?_, ?_⟩ <;> rintro rfl <;> rcases h with h | h <;> cases h

/-- A number is tried when the text starts like one. -/
theorem scalar_of_starts {c : Char} (h : Number.Starts c) (r : List Char) :
    scalar (c :: r) = (Number.read (c :: r)).map fun p => (.number p.1, p.2) := by
  unfold scalar
  split
  · next e => obtain ⟨rfl, -⟩ := List.cons.inj e; rcases h with h | h <;> cases h
  · next e => obtain ⟨rfl, -⟩ := List.cons.inj e; rcases h with h | h <;> cases h
  · next e => obtain ⟨rfl, -⟩ := List.cons.inj e; rcases h with h | h <;> cases h
  · next e => obtain ⟨rfl, -⟩ := List.cons.inj e; rcases h with h | h <;> cases h
  · rfl

theorem value_of_opens (d : Nat) {c : Char} {r : List Char} (ho : Opens (c :: r)) (h1 : c ≠ '[')
    (h2 : c ≠ '{') : value d (c :: r) = scalar (c :: r) := by
  cases d with
  | zero => rw [value, ho.skipSpace]
  | succ d =>
    rw [value, ho.skipSpace]
    split
    · next e => exact absurd (List.cons.inj e).1 h1
    · next e => exact absurd (List.cons.inj e).1 h2
    · rfl

theorem value_renderNumber (d : Nat) {n : Number} (hn : n.ReadsBack) {rest : List Char}
    (hrest : Follows rest) :
    value d (n.render.toList ++ rest) = n.reread.map (·, rest) := by
  rcases Number.render_cases hn with ⟨e, hr⟩ | ⟨c, r, e, hc, hp, hr⟩
  · rw [e, hr]
    exact value_of_opens d ⟨'n', 'u' :: 'l' :: 'l' :: rest, rfl, rfl, by decide, by decide⟩
      (by decide) (by decide)
  · have hbracket : c ≠ '[' := by rintro rfl; rcases hc with h | h <;> cases h
    have hbrace : c ≠ '{' := by rintro rfl; rcases hc with h | h <;> cases h
    rw [e, List.cons_append, value_of_opens d (opens_of_starts hc _) hbracket hbrace,
      scalar_of_starts hc, ← List.cons_append, Number.read_append hrest, hr]
    cases hread : Number.read (c :: r) with
    | none => rfl
    | some p =>
      show some (Json.number p.1, p.2 ++ rest) = _
      rw [hp p hread]
      rfl

theorem opens_render {ok : Number → Prop} (hok : ∀ n, ok n → n.ReadsBack) {d : Nat} {j : Json}
    (h : j.Fits ok d) : Opens (render j).toList := by
  cases h with
  | null => exact ⟨'n', _, rfl, rfl, by decide, by decide⟩
  | bool b => cases b <;> exact ⟨_, _, rfl, rfl, by decide, by decide⟩
  | @number _ n hn =>
    rw [render]
    rcases Number.render_cases (hok n hn) with ⟨e, -⟩ | ⟨c, r, e, hc, -⟩
    · rw [e]
      exact ⟨'n', _, rfl, rfl, by decide, by decide⟩
    · rw [e]
      exact opens_of_starts hc r
  | string s =>
    rw [render, toList_renderString]
    exact opens_quote _
  | array _ =>
    rw [toList_render_array]
    exact ⟨'[', _, rfl, rfl, by decide, by decide⟩
  | object _ =>
    rw [toList_render_object]
    exact ⟨'{', _, rfl, rfl, by decide, by decide⟩

theorem opens_memberText (p : String × Json) (r : List Char) : Opens (memberText p ++ r) :=
  opens_quote _

theorem memberName_memberText (p : String × Json) (r : List Char) :
    memberName (memberText p ++ r) = some (p.1, ':' :: ((render p.2).toList ++ r)) := by
  rw [memberName, (opens_memberText p r).skipSpace, memberText, List.cons_append,
    List.append_assoc]
  exact readString_escaped _ _

theorem skipColon_colon (cs : List Char) : skipColon (':' :: cs) = some cs := rfl

theorem member_memberText {read : Reader Json} {p : String × Json} {result : Option Json}
    {r : List Char} (h : read ((render p.2).toList ++ r) = result.map (·, r)) :
    member read (memberText p ++ r) = (result.map fun j => (p.1, j)).map (·, r) := by
  rw [member, memberName_memberText]
  simp only [Option.bind_eq_bind, Option.bind_some, skipColon_colon, h]
  cases result <;> rfl

/-- The text of a document is read as the document, with its numbers as they are read. -/
theorem value_render {d : Nat} {j : Json} (h : j.Fits Number.ReadsBack d) {rest : List Char}
    (hrest : Follows rest) :
    value d ((render j).toList ++ rest) = (j.mapNumbers? Number.reread).map (·, rest) := by
  induction h generalizing rest with
  | null =>
    exact value_of_opens _ ⟨'n', _, rfl, rfl, by decide, by decide⟩ (by decide) (by decide)
  | bool b =>
    cases b <;>
      exact value_of_opens _ ⟨_, _, rfl, rfl, by decide, by decide⟩ (by decide) (by decide)
  | number hn => exact value_renderNumber _ hn hrest
  | string s =>
    rw [render, toList_renderString, List.cons_append, List.append_assoc,
      value_of_opens _ (opens_quote _) (by decide) (by decide)]
    show (readString (s.toList.flatMap escapeChar ++ '"' :: rest)).map _ = _
    rw [readString_escaped]
    rfl
  | @array d items hitems ih =>
    have hopens : ∀ j ∈ items, Opens (render j).toList :=
      fun j hj => opens_render (fun _ hn => hn) (hitems j hj)
    have hread : separated (value d) ']'
        ([','].intercalate (items.map fun j => (render j).toList) ++ ']' :: rest) =
          (items.mapM (mapNumbers? Number.reread)).map (·, rest) :=
      separated_intercalate (.inl rfl) items hopens (fun j hj r hr => ih j hj hr) rest
    rw [toList_render_array, List.cons_append, List.append_assoc]
    show (separated (value d) ']' _).map _ = _
    rw [List.singleton_append, hread, mapNumbers?, mapItems?_eq]
    cases items.mapM (mapNumbers? Number.reread) <;> rfl
  | @object d members hmembers ih =>
    have hopens : ∀ p ∈ members, Opens (memberText p) := fun p _ => opens_quote _
    have hread : separated (member (value d)) '}'
        ([','].intercalate (members.map memberText) ++ '}' :: rest) =
          (members.mapM fun p => (mapNumbers? Number.reread p.2).map fun j => (p.1, j)).map
            (·, rest) :=
      separated_intercalate (.inr rfl) members hopens
        (fun p hp r hr => member_memberText (ih p.1 p.2 hp hr)) rest
    rw [toList_render_object, List.cons_append, List.append_assoc]
    show (separated (member (value d)) '}' _).map _ = _
    rw [List.singleton_append, hread, mapNumbers?, mapMembers?_eq]
    cases members.mapM fun p => (mapNumbers? Number.reread p.2).map fun j => (p.1, j) <;> rfl

end Json

end GuardedData
