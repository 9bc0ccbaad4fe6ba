import GuardedData.Proofs.Check.Tags
import GuardedData.Proofs.Guard.Modes
import GuardedData.Proofs.Record.Building

/-!
# Clients that change their catalogue

A client has a catalogue of its own and registers tags in it whenever it likes.
Where it wraps data or makes a factory, that takes a copy of the catalogue as it
is then. The views of a session have the options that the session was opened
with (`Store.Keeps`), and a factory stays as it was made, whatever the client
does later. `W.replies acts` is all that the client gets to see of what its acts
do. It stays the same if all registrations are left out and the copies are
spelled out instead (`after_spelledOut`), so a registration does nothing but to
later copies.
-/

namespace GuardedData

inductive ClientAct where
  | register (name : String) (p : TagPredicate)
  /-- Wraps a value with a copy of the catalogue. -/
  | wrap (schema : Schema) (v : Value) (quiet : Bool)
  /-- Makes a factory with a copy of the catalogue. -/
  | prepare (schema : Schema) (defaults : Value) (quiet : Bool)
  /-- Takes over a factory that was made elsewhere. -/
  | adopt (f : RecordFactory)
  | build (i : Nat) (data : Value)
  /-- Has nothing to do with the catalogue. -/
  | plain (a : Act)

namespace ClientAct

def registers : ClientAct → Bool
  | register .. => true
  | _ => false

/-- The act takes a copy of the catalogue. -/
def copies : ClientAct → Bool
  | wrap .. | prepare .. => true
  | _ => false

/-- The act, with the copy that it takes spelled out. -/
def withCopy (c : Catalogue) : ClientAct → ClientAct
  | wrap schema v quiet => plain (.wrap schema v ⟨quiet, c⟩)
  | prepare schema defaults quiet => adopt ⟨schema, defaults, ⟨quiet, c⟩⟩
  | a => a

/-- The acts without the registrations, each with the copy spelled out that it takes. -/
def spelledOut (c : Catalogue) : List ClientAct → List ClientAct
  | [] => []
  | register name p :: acts => spelledOut (c.register name p) acts
  | a :: acts => a.withCopy c :: spelledOut c acts

theorem spelledOut_cons {a : ClientAct} (ha : a.registers = false) (c : Catalogue)
    (acts : List ClientAct) : spelledOut c (a :: acts) = a.withCopy c :: spelledOut c acts := by
  cases a with
  | register => cases ha
  | _ => rfl

theorem withCopy_of_not_copies {a : ClientAct} (ha : a.copies = false) (c : Catalogue) :
    a.withCopy c = a := by
  cases a with
  | wrap | prepare => cases ha
  | _ => rfl

theorem spelledOut_of_not_copies {acts : List ClientAct} (hc : ∀ a ∈ acts, a.copies = false)
    (c : Catalogue) : spelledOut c acts = acts.filter (!·.registers) := by
  induction acts generalizing c with
  | nil => rfl
  | cons a acts ih =>
    obtain ⟨ha, hacts⟩ := List.forall_mem_cons.mp hc
    cases hr : a.registers with
    | true =>
      cases a with
      | register name p => exact ih hacts (c.register name p)
      | _ => cases hr
    | false =>
      rw [spelledOut_cons hr, withCopy_of_not_copies ha, ih hacts,
        List.filter_cons_of_pos (by rw [hr]; rfl)]

end ClientAct

/-- What an act of a client gives back and reports. -/
inductive Reply where
  | plain (answer : Answer) (events : List Event)
  | built (result : Except RecordError ViewId) (events : List Event)

def Store.reports (s : Store) : Act → List Event
  | .wrap schema v o => (s.wrap schema v o).events
  | .get id key => match s.view? id with
    | some v => (s.get v key).events
    | none => []
  | .set id key x => match s.view? id with
    | some v => (s.set v key x).events
    | none => []
  | _ => []

/-- A catalogue, the factories that were made, and a store. -/
structure Client where
  catalogue : Catalogue
  factories : List RecordFactory
  store : Store

namespace Client

/-- The client that has a heap and a catalogue, but no factories and no views yet. -/
def initial (h : Heap) (c : Catalogue) : Client := ⟨c, [], .ofHeap h⟩

/-- The effect of an act. There is none of building with a factory that was never made. -/
def act (W : Client) : ClientAct → Client
  | .register name p => { W with catalogue := W.catalogue.register name p }
  | .wrap schema v quiet =>
    { W with store := W.store.act (.wrap schema v ⟨quiet, W.catalogue⟩) }
  | .prepare schema defaults quiet =>
    { W with factories := W.factories ++ [⟨schema, defaults, ⟨quiet, W.catalogue⟩⟩] }
  | .adopt f => { W with factories := W.factories ++ [f] }
  | .build i data => match W.factories[i]? with
    | some f => { W with store := (f.build W.store data).store }
    | none => W
  | .plain a => { W with store := W.store.act a }

/-- What an act gives back and reports, if there is something to see of it. -/
def reply (W : Client) : ClientAct → List Reply
  | .register .. | .prepare .. | .adopt _ => []
  | .wrap schema v quiet =>
    let a : Act := .wrap schema v ⟨quiet, W.catalogue⟩
    [.plain (W.store.answer a) (W.store.reports a)]
  | .build i data => match W.factories[i]? with
    | some f => [.built (f.build W.store data).result (f.build W.store data).events]
    | none => []
  | .plain a => [.plain (W.store.answer a) (W.store.reports a)]

def after (W : Client) (acts : List ClientAct) : Client := acts.foldl act W

def replies (W : Client) : List ClientAct → List Reply
  | [] => []
  | a :: acts => W.reply a ++ (W.act a).replies acts

end Client

/-! ## Sessions -/

namespace Client

section
variable {W : Client} {a : ClientAct} {i : SessionId} {o : Options} {j : Nat} {f : RecordFactory}

theorem act_build (hf : W.factories[j]? = some f) (data : Value) :
    W.act (.build j data) = { W with store := (f.build W.store data).store } := by
  simp only [act, hf]

theorem act_build_of_none (hf : W.factories[j]? = none) (data : Value) :
    W.act (.build j data) = W := by
  simp only [act, hf]

theorem store_act (W : Client) (a : ClientAct) : ∃ as, (W.act a).store = W.store.after as := by
  cases a with
  | register name p => exact ⟨[], rfl⟩
  | wrap schema v quiet => exact ⟨[.wrap schema v ⟨quiet, W.catalogue⟩], rfl⟩
  | prepare schema defaults quiet => exact ⟨[], rfl⟩
  | adopt f => exact ⟨[], rfl⟩
  | plain a => exact ⟨[a], rfl⟩
  | build j data =>
    cases hf : W.factories[j]? with
    | none => exact ⟨[], by rw [act_build_of_none hf]; rfl⟩
    | some f =>
      rw [act_build hf]
      rcases f.store_build W.store data with e | e
      · exact ⟨[.newObject W.store.heap.next (W.store.heap.mergedFields f.defaults data)], e⟩
      · exact ⟨[.newObject W.store.heap.next (W.store.heap.mergedFields f.defaults data),
          .wrap f.schema (.object W.store.heap.next) f.options], e⟩

theorem store_after (W : Client) (acts : List ClientAct) :
    ∃ as, (W.after acts).store = W.store.after as := by
  induction acts generalizing W with
  | nil => exact ⟨[], rfl⟩
  | cons a acts ih =>
    obtain ⟨as, ha⟩ := W.store_act a
    obtain ⟨bs, hb⟩ := ih (W.act a)
    refine ⟨as ++ bs, ?_⟩
    rw [Store.after_append, ← ha]
    exact hb

theorem numbered_after_initial (h : Heap) (c : Catalogue) (acts : List ClientAct) :
    ((initial h c).after acts).store.Numbered := by
  obtain ⟨as, e⟩ := (initial h c).store_after acts
  rw [e]
  exact (Store.numbered_ofHeap h).after as

theorem keeps_after (hk : W.store.Keeps i o) (hi : i < W.store.nextSession)
    (acts : List ClientAct) : (W.after acts).store.Keeps i o := by
  obtain ⟨as, e⟩ := W.store_after acts
  rw [e]
  exact hk.after hi as

/-- The session that a wrap opens has the catalogue as it was then. -/
theorem keeps_wrap (hW : W.store.Numbered) (schema : Schema) (t : Handle) (quiet : Bool)
    (acts : List ClientAct) :
    ((W.act (.wrap schema t.toValue quiet)).after acts).store.Keeps W.store.nextSession
      ⟨quiet, W.catalogue⟩ := by
  obtain ⟨hk, hi⟩ := Store.keeps_act_wrap hW schema t ⟨quiet, W.catalogue⟩
  exact keeps_after (W := W.act (.wrap schema t.toValue quiet)) hk hi acts

theorem keeps_build (hW : W.store.Numbered) {data : Value} {id : ViewId}
    (hf : W.factories[j]? = some f) (hid : (f.build W.store data).result = .ok id)
    (acts : List ClientAct) :
    ((W.act (.build j data)).after acts).store.Keeps W.store.nextSession f.options := by
  have hbuild : (W.act (.build j data)).store = f.opened W.store data := by
    rw [act_build hf]
    exact (RecordFactory.opened_of_result hid).2
  have hn : (f.merge W.store data).Numbered := hW.act _
  obtain ⟨hk, hi⟩ := Store.keeps_act_wrap hn f.schema (.object W.store.heap.next) f.options
  rw [← RecordFactory.opened_eq_act, ← hbuild] at hk hi
  exact keeps_after hk hi acts

/-! ## Factories -/

theorem factory_act (hf : W.factories[j]? = some f) (a : ClientAct) :
    (W.act a).factories[j]? = some f := by
  cases a with
  | prepare | adopt =>
    exact (List.getElem?_append_left (List.getElem?_eq_some_iff.mp hf).1).trans hf
  | build k data =>
    cases hk : W.factories[k]? with
    | none => rw [act_build_of_none hk, hf]
    | some g => rw [act_build hk, hf]
  | _ => exact hf

theorem factory_after (hf : W.factories[j]? = some f) (acts : List ClientAct) :
    (W.after acts).factories[j]? = some f := by
  induction acts generalizing W with
  | nil => exact hf
  | cons a acts ih => exact ih (factory_act hf a)

/-- A factory that was made stays, with the catalogue as it was then. -/
theorem factory_prepare (W : Client) (schema : Schema) (defaults : Value) (quiet : Bool)
    (acts : List ClientAct) :
    ((W.act (.prepare schema defaults quiet)).after acts).factories[W.factories.length]? =
      some ⟨schema, defaults, ⟨quiet, W.catalogue⟩⟩ := by
  have made : (W.act (.prepare schema defaults quiet)).factories[W.factories.length]? =
      some ⟨schema, defaults, ⟨quiet, W.catalogue⟩⟩ := List.getElem?_concat_length
  exact factory_after made acts

/-! ## Runs without registrations -/

/-- An act that does not register anything is the same with any catalogue, if the copy that it takes
is spelled out. -/
theorem act_withCopy (W : Client) (c : Catalogue) (ha : a.registers = false) :
    { W with catalogue := c }.act (a.withCopy W.catalogue) = { W.act a with catalogue := c } ∧
      { W with catalogue := c }.reply (a.withCopy W.catalogue) = W.reply a ∧
      (W.act a).catalogue = W.catalogue := by
  cases a with
  | register => cases ha
  | build k data =>
    cases hk : W.factories[k]? with
    | none => simp only [ClientAct.withCopy, act, reply, hk, and_self]
    | some g => simp only [ClientAct.withCopy, act, reply, hk, and_self]
  | _ => exact ⟨rfl, rfl, rfl⟩

/-- The acts do the same without the registrations, and start with any catalogue, if the copies that
they take are spelled out. -/
theorem after_spelledOut (W : Client) (c : Catalogue) (acts : List ClientAct) :
    { W with catalogue := c }.replies (ClientAct.spelledOut W.catalogue acts) = W.replies acts ∧
      { W with catalogue := c }.after (ClientAct.spelledOut W.catalogue acts) =
        { W.after acts with catalogue := c } := by
  induction acts generalizing W with
  | nil => exact ⟨rfl, rfl⟩
  | cons a acts ih =>
    obtain ⟨hreplies, hafter⟩ := ih (W.act a)
    cases ha : a.registers with
    | true =>
      cases a with
      | register name p => exact ⟨hreplies, hafter⟩
      | _ => cases ha
    | false =>
      obtain ⟨hact, hreply, hcatalogue⟩ := W.act_withCopy c ha
      rw [hcatalogue] at hreplies hafter
      rw [ClientAct.spelledOut_cons ha]
      constructor
      · rw [replies, replies, hact, hreply, hreplies]
      · exact (congrArg (after · _) hact).trans hafter

/-- As long as nothing copies the catalogue, the acts do the same without the registrations. -/
theorem after_unregistered (W : Client) {acts : List ClientAct}
    (hc : ∀ a ∈ acts, a.copies = false) :
    W.replies (acts.filter (!·.registers)) = W.replies acts ∧
      W.after (acts.filter (!·.registers)) = { W.after acts with catalogue := W.catalogue } := by
  rw [← ClientAct.spelledOut_of_not_copies hc W.catalogue]
  exact W.after_spelledOut W.catalogue acts

end

/-- How far changes of a catalogue reach. Catalogues that agree on the tags of a schema give the
same result, error included. New tags never make a check refuse what it accepted. A session and a
factory have the catalogue as it was when they took their copy, and so have the records of the
factory, whatever the client does later. All replies and all that the acts do are the same without
any registrations and with the copies spelled out; so where there are no further copies, they are
the same without the registrations. -/
theorem reach_of_catalogue (h : Heap) (c : Catalogue) (s : Schema) (v : Value) :
    (∀ c', c.AgreesOn c' s → check c' h s v = check c h s v) ∧
    (∀ tags, (∀ tag ∈ tags, c.contains tag.1 = false) → check c h s v = .ok () →
      check (c.registerAll tags) h s v = .ok ()) ∧
    ∀ before,
      let W := (initial h c).after before
      (∀ acts c',
        { W with catalogue := c' }.replies (ClientAct.spelledOut W.catalogue acts) =
          W.replies acts ∧
        { W with catalogue := c' }.after (ClientAct.spelledOut W.catalogue acts) =
          { W.after acts with catalogue := c' }) ∧
      (∀ acts, (∀ a ∈ acts, a.copies = false) →
        W.replies (acts.filter (!·.registers)) = W.replies acts ∧
        W.after (acts.filter (!·.registers)) = { W.after acts with catalogue := W.catalogue }) ∧
      (∀ schema (t : Handle) quiet acts,
        ((W.act (.wrap schema t.toValue quiet)).after acts).store.Keeps W.store.nextSession
          ⟨quiet, W.catalogue⟩) ∧
      (∀ schema defaults quiet acts,
        ((W.act (.prepare schema defaults quiet)).after acts).factories[W.factories.length]? =
          some ⟨schema, defaults, ⟨quiet, W.catalogue⟩⟩) ∧
      ∀ j f data id acts, W.factories[j]? = some f → (f.build W.store data).result = .ok id →
        ((W.act (.build j data)).after acts).store.Keeps W.store.nextSession f.options := by
  refine ⟨fun c' => check_of_agreesOn,
    fun tags hnew => check_mono (Catalogue.extends_registerAll hnew), fun before => ?_⟩
  intro W
  have hW : W.store.Numbered := numbered_after_initial h c before
  exact ⟨fun acts c' => W.after_spelledOut c' acts, fun acts hc => W.after_unregistered hc,
    keeps_wrap hW, W.factory_prepare, fun j f data id acts hf hid => keeps_build hW hf hid acts⟩

/-- A schema with a tag under a union and an array, and one under the union. -/
def evens : Schema := .union [.array (.tag "even"), .tag "number"]

/-- The catalogue of numbers only. -/
def numbers : Catalogue := Catalogue.empty.register "number" (Catalogue.ofKind .number)

theorem agreesOn_evens (p : TagPredicate) : numbers.AgreesOn (numbers.register "odd" p) evens := by
  intro name hname
  refine Catalogue.getElem?_register_ne _ p ?_
  cases hname with
  | branch hb hn =>
    rcases List.mem_pair.mp hb with rfl | rfl
    · cases hn with
      | array hn =>
        cases hn
        decide
    · cases hn
      decide

def preparation : List ClientAct :=
  [.prepare (.tag "even") .undefined true, .plain (.newObject 0 ∅)]

/-- A factory and a session that were there before their tag was registered go on without it. -/
theorem reach_of_catalogue_evens :
    let always : TagPredicate := fun _ _ => true
    let late : List ClientAct := [.register "even" always]
    let W := (initial .empty numbers).after preparation
    let opened := W.act (.wrap (.object [("n", .tag "even")]) (.object 0) false)
    let refused : Mismatch := .kind "even" "number"
    check (numbers.register "odd" always) .empty evens (.number 3) = .ok () ∧
    check (numbers.registerAll [("even", always)]) .empty evens (.number 3) = .ok () ∧
    opened.replies (late ++ [.plain (.set 0 (.name "n") (.number 4))]) =
      [.plain (.written (.error (.rejected "n" refused))) [.writeRejected "n" refused]] ∧
    (opened.after late).store.Keeps 0 (.strict numbers) ∧
    (W.after late).factories[0]? = some ⟨.tag "even", .undefined, .lenient numbers⟩ ∧
    ((W.act (.build 0 .undefined)).after late).store.Keeps 0 (.lenient numbers) := by
  intro always late W opened refused
  obtain ⟨frame, grow, runs⟩ := reach_of_catalogue .empty numbers evens (.number 3)
  obtain ⟨-, -, hwrap, -, hbuild⟩ := runs preparation
  obtain ⟨-, -, -, hprepare, -⟩ := runs []
  obtain ⟨-, hreplies, -⟩ :=
    runs (preparation ++ [.wrap (.object [("n", .tag "even")]) (.object 0) false])
  refine ⟨(frame _ (agreesOn_evens always)).trans rfl, grow _ ?_ rfl, ?_, ?_, ?_, ?_⟩
  · intro tag htag
    rw [List.mem_singleton.mp htag]
    decide
  · have plain : ∀ a ∈ late ++ [.plain (.set 0 (.name "n") (.number 4))], a.copies = false := by
      intro a ha
      rcases List.mem_pair.mp ha with rfl | rfl <;> rfl
    exact (hreplies _ plain).1.symm.trans rfl
  · exact hwrap _ (.object 0) false late
  · exact hprepare _ _ _ [.plain (.newObject 0 ∅), .register "even" always]
  · exact hbuild 0 ⟨.tag "even", .undefined, .lenient numbers⟩ .undefined 0 late rfl rfl

end Client

end GuardedData
