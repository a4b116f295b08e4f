import Mathlib.Data.List.Pairwise
import ProxyConsole.Json.Record

/-!
# The order of members

Whatever order the members of an object stand in, a record is read to the same value: its fields are
stored independently of one another, and a member that is passed over changes nothing.  So it is for
records whose fields are records in turn.
-/

set_option autoImplicit false

namespace ProxyConsole

open Json

/-! ## One member -/

namespace Record

variable {σ : Type} {r : Record σ}

/-- What reading a member makes of the names seen and of the record. -/
inductive ReadsMember (r : Record σ) (m : Literal × Node) (seen : List String) (s : σ) :
    List String → σ → Prop where
  | unknown (name : String) (text : m.1.text = .ok name) (unknown : r.field? name = none)
      (passed : m.2.passOver = .ok ()) : ReadsMember r m seen s seen s
  | field (name : String) (f : Field σ) (t : σ) (text : m.1.text = .ok name)
      (known : r.field? name = some f) (fresh : name ∉ seen) (stored : f.store m.2 s = .ok t) :
      ReadsMember r m seen s (name :: seen) t

theorem readMembers_cons {m : Literal × Node} {members : List (Literal × Node)} {seen : List String}
    {s : σ} {out : List String × σ} :
    r.readMembers (m :: members) seen s = .ok out ↔
      ∃ seen' t, ReadsMember r m seen s seen' t ∧ r.readMembers members seen' t = .ok out := by
  obtain ⟨key, value⟩ := m
  constructor
  · intro read
    rw [readMembers] at read
    cases text : key.text with
    | error e =>
      rw [text] at read
      cases read
    | ok name =>
      rw [text] at read
      simp only [liftFault] at read
      split at read
      · rename_i unknown
        cases passed : value.passOver with
        | error e =>
          rw [passed] at read
          cases read
        | ok done =>
          rw [passed] at read
          exact ⟨seen, s, .unknown name text unknown passed, read⟩
      · rename_i f known
        split at read
        · cases read
        · rename_i fresh
          split at read
          · cases read
          · rename_i t stored
            exact ⟨name :: seen, t, .field name f t text known fresh stored, read⟩
  · rintro ⟨seen', t, reads, read⟩
    cases reads with
    | unknown name text unknown passed =>
      dsimp only at text passed
      simp only [readMembers, text, liftFault, unknown, passed]
      exact read
    | field name f t text known fresh stored =>
      dsimp only at text stored
      simp only [readMembers, text, liftFault, known, if_neg fresh, stored]
      exact read

theorem ReadsMember.congr {m : Literal × Node} {seen seen' other : List String} {s t : σ}
    (reads : ReadsMember r m seen s seen' t) (same : ∀ name, name ∈ seen ↔ name ∈ other) :
    ∃ other', ReadsMember r m other s other' t ∧ ∀ name, name ∈ seen' ↔ name ∈ other' := by
  cases reads with
  | unknown name text unknown passed => exact ⟨other, .unknown name text unknown passed, same⟩
  | field name f t text known fresh stored =>
    refine ⟨name :: other, .field name f t text known (fun seen => fresh ((same name).mpr seen))
      stored, ?_⟩
    intro name'
    rw [List.mem_cons, List.mem_cons, same]

theorem readMembers_congr {members : List (Literal × Node)} {seen other : List String} {s : σ}
    {out : List String × σ} (read : r.readMembers members seen s = .ok out)
    (same : ∀ name, name ∈ seen ↔ name ∈ other) :
    ∃ names, r.readMembers members other s = .ok (names, out.2) ∧
      ∀ name, name ∈ out.1 ↔ name ∈ names := by
  induction members generalizing seen other s with
  | nil =>
    cases read
    exact ⟨other, rfl, same⟩
  | cons m members ih =>
    obtain ⟨seen', t, reads, read⟩ := readMembers_cons.mp read
    obtain ⟨other', reads', same'⟩ := reads.congr same
    obtain ⟨names, read', same''⟩ := ih read same'
    exact ⟨names, readMembers_cons.mpr ⟨other', t, reads', read'⟩, same''⟩

end Record

/-! ## Two members -/

variable {σ : Type}

/-- Two fields are stored to the same effect in either order. -/
def Field.Commutes (f g : Field σ) : Prop :=
  ∀ a b s u, ((f.store a s).bind (g.store b)) = .ok u ↔ ((g.store b s).bind (f.store a)) = .ok u

instance : Std.Symm (@Field.Commutes σ) where
  symm _ _ commutes a b s u := (commutes b a s u).symm

/-- Different fields of a record are stored independently. -/
def Record.Independent (r : Record σ) : Prop :=
  ∀ f ∈ r.fields, ∀ g ∈ r.fields, f.name ≠ g.name → f.Commutes g

theorem Record.independent_of_pairwise {r : Record σ}
    (pairwise : r.fields.Pairwise Field.Commutes) : r.Independent := by
  intro f inside g inside' differ
  exact pairwise.forall inside inside' fun same => differ (congrArg Field.name same)

section Setters

variable {α β : Type} {c : Codec α} {d : Codec β} {name name' : String} {required required' : Bool}

theorem Field.commutes_of_store {f g : Field σ} {set : σ → α → σ} {set' : σ → β → σ}
    (stored : f.store = fun node s => (c.decode node).map (set s))
    (stored' : g.store = fun node s => (d.decode node).map (set' s))
    (apart : ∀ s a b, set' (set s a) b = set (set' s b) a) : f.Commutes g := by
  intro a b s u
  simp only [stored, stored']
  cases c.decode a with
  | error e => cases d.decode b <;> simp [Except.bind, Except.map]
  | ok x =>
    cases d.decode b with
    | error e => simp [Except.bind, Except.map]
    | ok y => simp [Except.bind, Except.map, apart]

theorem Field.commutes_of {get : σ → α} {get' : σ → β} {set : σ → α → σ} {set' : σ → β → σ}
    (apart : ∀ s a b, set' (set s a) b = set (set' s b) a) :
    (Field.of name c get set required).Commutes (Field.of name' d get' set' required') :=
  commutes_of_store rfl rfl apart

theorem Field.commutes_optional {get : σ → α} {get' : σ → Option β} {set : σ → α → σ}
    {set' : σ → Option β → σ} (apart : ∀ s a b, set' (set s a) b = set (set' s b) a) :
    (Field.of name c get set required).Commutes (Field.optional name' d get' set') :=
  commutes_of_store rfl (d := d.option) rfl apart

theorem Field.optional_commutes {get : σ → Option α} {get' : σ → β} {set : σ → Option α → σ}
    {set' : σ → β → σ} (apart : ∀ s a b, set' (set s a) b = set (set' s b) a) :
    (Field.optional name c get set).Commutes (Field.of name' d get' set' required') :=
  commutes_of_store (c := c.option) rfl rfl apart

theorem Field.optionals_commute {get : σ → Option α} {get' : σ → Option β} {set : σ → Option α → σ}
    {set' : σ → Option β → σ} (apart : ∀ s a b, set' (set s a) b = set (set' s b) a) :
    (Field.optional name c get set).Commutes (Field.optional name' d get' set') :=
  commutes_of_store (c := c.option) rfl (d := d.option) rfl apart

end Setters

theorem Record.name_of_field? {r : Record σ} {name : String} {f : Field σ}
    (known : r.field? name = some f) : f ∈ r.fields ∧ f.name = name :=
  ⟨List.mem_of_find?_eq_some known, by simpa using List.find?_some known⟩

theorem Record.ReadsMember.swap {r : Record σ} (independent : r.Independent) {m m' : Literal × Node}
    {seen seen' seen'' : List String} {s t u : σ} (first : r.ReadsMember m seen s seen' t)
    (second : r.ReadsMember m' seen' t seen'' u) :
    ∃ between v names, r.ReadsMember m' seen s between v ∧ r.ReadsMember m between v names u ∧
      ∀ name, name ∈ seen'' ↔ name ∈ names := by
  cases first with
  | unknown name text unknown passed =>
    cases second with
    | unknown name' text' unknown' passed' =>
      exact ⟨_, _, _, .unknown name' text' unknown' passed', .unknown name text unknown passed,
        fun _ => Iff.rfl⟩
    | field name' g u text' known' fresh' stored' =>
      exact ⟨_, _, _, .field name' g u text' known' fresh' stored', .unknown name text unknown
        passed, fun _ => Iff.rfl⟩
  | field name f t text known fresh stored =>
    cases second with
    | unknown name' text' unknown' passed' =>
      exact ⟨_, _, _, .unknown name' text' unknown' passed', .field name f t text known fresh
        stored, fun _ => Iff.rfl⟩
    | field name' g u text' known' fresh' stored' =>
      rw [List.mem_cons, not_or] at fresh'
      obtain ⟨inside, called⟩ := Record.name_of_field? known
      obtain ⟨inside', called'⟩ := Record.name_of_field? known'
      have commutes :=
        independent f inside g inside' (by rw [called, called']; exact Ne.symm fresh'.1)
      have other := (commutes m.2 m'.2 s u).mp (by rw [stored]; exact stored')
      cases early : g.store m'.2 s with
      | error e =>
        rw [early] at other
        cases other
      | ok v =>
        rw [early] at other
        refine ⟨_, v, _, .field name' g v text' known' fresh'.2 early,
          .field name f u text known ?_ other, ?_⟩
        · rw [List.mem_cons, not_or]
          exact ⟨Ne.symm fresh'.1, fresh⟩
        · intro n
          simp only [List.mem_cons, or_left_comm]

/-- Members can be read in any order. -/
theorem Record.readMembers_perm {r : Record σ} (independent : r.Independent)
    {members members' : List (Literal × Node)} (perm : members.Perm members') {seen : List String}
    {s : σ} {out : List String × σ} (read : r.readMembers members seen s = .ok out) :
    ∃ names, r.readMembers members' seen s = .ok (names, out.2) ∧
      ∀ name, name ∈ out.1 ↔ name ∈ names := by
  induction perm generalizing seen s out with
  | nil => exact ⟨out.1, read, fun _ => Iff.rfl⟩
  | cons m _ ih =>
    obtain ⟨seen', t, reads, read⟩ := Record.readMembers_cons.mp read
    obtain ⟨names, read', same⟩ := ih read
    exact ⟨names, Record.readMembers_cons.mpr ⟨seen', t, reads, read'⟩, same⟩
  | swap m m' members =>
    obtain ⟨seen', t, first, read⟩ := Record.readMembers_cons.mp read
    obtain ⟨seen'', u, second, read⟩ := Record.readMembers_cons.mp read
    obtain ⟨between, v, seen₂, first', second', same⟩ := first.swap independent second
    obtain ⟨names, read', same'⟩ := Record.readMembers_congr read same
    exact ⟨names, Record.readMembers_cons.mpr ⟨between, v, first',
      Record.readMembers_cons.mpr ⟨seen₂, u, second', read'⟩⟩, same'⟩
  | trans _ _ ih ih' =>
    obtain ⟨names, read', same⟩ := ih read
    obtain ⟨names', read'', same'⟩ := ih' read'
    exact ⟨names', read'', fun name => (same name).trans (same' name)⟩

theorem Record.missing?_eq_none {r : Record σ} {seen : List String} :
    r.missing? seen = none ↔ ∀ f ∈ r.fields, f.required = true → f.name ∈ seen := by
  rw [Record.missing?, Option.map_eq_none_iff, List.find?_eq_none]
  refine forall₂_congr fun f _ => ?_
  simp

/-- An object is read to a value exactly if its members are, its bracket is there, and no
required field is missing. -/
theorem Record.decode_object {r : Record σ} {members : List (Literal × Node)}
    {ending : Option Fault} {s : σ} : r.decode (.object members ending) = .ok s ↔
      ending = none ∧ ∃ seen, r.readMembers members [] r.blank = .ok (seen, s) ∧
        r.missing? seen = none := by
  simp only [Record.decode]
  cases r.readMembers members [] r.blank with
  | error e => simp
  | ok out =>
    obtain ⟨seen, t⟩ := out
    cases ending with
    | some f => simp [atEnd]
    | none =>
      cases missing : r.missing? seen with
      | none =>
        simp only [atEnd, missing, Except.ok.injEq, true_and]
        constructor
        · rintro rfl
          exact ⟨seen, rfl, missing⟩
        · rintro ⟨_, same, _⟩
          exact (Prod.mk.inj same).2
      | some name =>
        simp only [atEnd, missing, reduceCtorEq, true_and, false_iff]
        rintro ⟨seen', same, none⟩
        cases same
        rw [missing] at none
        cases none

theorem Record.decode_perm {r : Record σ} (independent : r.Independent)
    {members members' : List (Literal × Node)} (perm : members.Perm members') {s : σ}
    (decoded : r.decode (.object members none) = .ok s) :
    r.decode (.object members' none) = .ok s := by
  obtain ⟨_, seen, read, complete⟩ := Record.decode_object.mp decoded
  obtain ⟨names, read', same⟩ := Record.readMembers_perm independent perm read
  refine Record.decode_object.mpr ⟨rfl, names, read', ?_⟩
  rw [Record.missing?_eq_none] at complete ⊢
  exact fun f inside needed => (same f.name).mp (complete f inside needed)

/-! ## Whole documents -/

mutual

/-- The same document with the members of its objects in another order. -/
inductive Reordered : Node → Node → Prop where
  | same (node : Node) : Reordered node node
  | object {members between members' : List (Literal × Node)}
      (each : ReorderedMembers members between) (order : between.Perm members') :
      Reordered (.object members none) (.object members' none)

inductive ReorderedMembers : List (Literal × Node) → List (Literal × Node) → Prop where
  | nil : ReorderedMembers [] []
  | cons (key : Literal) {value value' : Node} {members members' : List (Literal × Node)}
      (first : Reordered value value') (others : ReorderedMembers members members') :
      ReorderedMembers ((key, value) :: members) ((key, value') :: members')

end

theorem passOverMembers_iff (members : List (Literal × Node)) :
    Json.passOverMembers members = .ok () ↔
      ∀ m ∈ members, m.1.flaw = none ∧ m.2.passOver = .ok () := by
  induction members with
  | nil => simp [Json.passOverMembers]
  | cons m members ih =>
    obtain ⟨key, value⟩ := m
    rw [Json.passOverMembers, List.forall_mem_cons]
    cases key.flaw with
    | some f => simp
    | none =>
      cases value.passOver with
      | error f => simp
      | ok done => simp [ih]

mutual

theorem Reordered.passOver {node node' : Node} :
    Reordered node node' → node.passOver = .ok () → node'.passOver = .ok ()
  | .same _ => id
  | @Reordered.object members _ _ each order => by
    intro passed
    have members : Json.passOverMembers members = .ok () := by
      rw [Node.passOver] at passed
      split at passed
      · cases passed
      · assumption
    have between := (passOverMembers_iff _).mp (each.passOver members)
    have members' := (passOverMembers_iff _).mpr fun m inside =>
      between m (order.mem_iff.mpr inside)
    rw [Node.passOver, members']
    rfl

theorem ReorderedMembers.passOver {members members' : List (Literal × Node)} :
    ReorderedMembers members members' → Json.passOverMembers members = .ok () →
      Json.passOverMembers members' = .ok ()
  | .nil => id
  | .cons key first others => by
    intro passed
    obtain ⟨⟨flawless, value⟩, later⟩ := List.forall_mem_cons.mp ((passOverMembers_iff _).mp passed)
    refine (passOverMembers_iff _).mpr
      (List.forall_mem_cons.mpr ⟨⟨flawless, first.passOver value⟩, ?_⟩)
    exact (passOverMembers_iff _).mp (others.passOver ((passOverMembers_iff _).mpr later))

end

/-- What is read does not depend on the order of members. -/
def Codec.Orderless {α : Type} (c : Codec α) : Prop :=
  ∀ node node' a, Reordered node node' → c.decode node = .ok a → c.decode node' = .ok a

def Field.Orderless (f : Field σ) : Prop :=
  ∀ node node' s t, Reordered node node' → f.store node s = .ok t → f.store node' s = .ok t

theorem Codec.orderless_of_scalar {α : Type} {c : Codec α}
    (refuses : ∀ members a, c.decode (.object members none) ≠ .ok a) : c.Orderless := by
  intro node node' a reordered decoded
  cases reordered with
  | same => exact decoded
  | object => exact absurd decoded (refuses _ a)

namespace Codec

theorem orderless_bool : bool.Orderless :=
  orderless_of_scalar nofun

theorem orderless_string : string.Orderless :=
  orderless_of_scalar nofun

theorem orderless_uint16 : uint16.Orderless :=
  orderless_of_scalar nofun

theorem orderless_uint32 : uint32.Orderless :=
  orderless_of_scalar nofun

theorem orderless_uint64 : uint64.Orderless :=
  orderless_of_scalar nofun

theorem orderless_option {α : Type} {c : Codec α} (orderless : c.Orderless) :
    c.option.Orderless := by
  intro node node' value reordered decoded
  cases reordered with
  | same => exact decoded
  | @object members between members' each order =>
    change (c.decode (.object members none)).map some = .ok value at decoded
    change (c.decode (.object members' none)).map some = .ok value
    cases read : c.decode (.object members none) with
    | error e =>
      rw [read] at decoded
      cases decoded
    | ok a =>
      rw [orderless _ _ a (.object each order) read, ← decoded, read]

end Codec

theorem Field.orderless_of {α : Type} {c : Codec α} {name : String} {get : σ → α} {set : σ → α → σ}
    {required : Bool} (orderless : c.Orderless) : (Field.of name c get set required).Orderless := by
  intro node node' s t reordered stored
  simp only [Field.of] at stored ⊢
  cases decoded : c.decode node with
  | error e =>
    rw [decoded] at stored
    cases stored
  | ok a =>
    rw [decoded] at stored
    rw [orderless node node' a reordered decoded]
    exact stored

theorem ReorderedMembers.readMembers {r : Record σ} (fields : ∀ f ∈ r.fields, f.Orderless)
    {members members' : List (Literal × Node)} (each : ReorderedMembers members members')
    {seen : List String} {s : σ} {out : List String × σ}
    (read : r.readMembers members seen s = .ok out) : r.readMembers members' seen s = .ok out := by
  induction members generalizing members' seen s with
  | nil =>
    cases each
    exact read
  | cons m members ih =>
    cases each with
    | cons key first others =>
      obtain ⟨seen', t, reads, read⟩ := Record.readMembers_cons.mp read
      refine Record.readMembers_cons.mpr ⟨seen', t, ?_, ih others read⟩
      cases reads with
      | unknown name text unknown passed => exact .unknown name text unknown (first.passOver passed)
      | field name f t text known fresh stored =>
        have inside := (Record.name_of_field? known).1
        exact .field name f t text known fresh (fields f inside _ _ _ _ first stored)

/-- A record of independent fields is read whatever the order of the members, inside its
fields too. -/
theorem Record.orderless {r : Record σ} (independent : r.Independent)
    (fields : ∀ f ∈ r.fields, f.Orderless) : r.codec.Orderless := by
  intro node node' s reordered decoded
  cases reordered with
  | same => exact decoded
  | @object members between members' each order =>
    change r.decode (.object members none) = .ok s at decoded
    change r.decode (.object members' none) = .ok s
    obtain ⟨_, seen, read, complete⟩ := Record.decode_object.mp decoded
    refine Record.decode_perm independent order ?_
    exact Record.decode_object.mpr ⟨rfl, seen, each.readMembers fields read, complete⟩

end ProxyConsole
