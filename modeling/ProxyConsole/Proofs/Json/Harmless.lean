import Mathlib.Logic.Relation
import ProxyConsole.Proofs.Json.Grammar
import ProxyConsole.Proofs.Json.Order

/-!
# Harmless differences

Two texts of a record may differ in the order of their members, in members that nobody
asked for and in members that only say what a missing member says.  None of these is
noticed by a reader of the record.
-/

set_option autoImplicit false

namespace ProxyConsole

open Json

variable {σ : Type} {r : Record σ} {members members' : List (Literal × Node)}

/-! ## Members without effect -/

namespace Record

/-- A member of which the blank record knows already what it says. -/
structure Idle (r : Record σ) (name : String) (value : Node) : Prop where
  kept : ∃ f, r.field? name = some f ∧ f.store value r.blank = .ok r.blank
  spare : ∀ f ∈ r.fields, f.name = name → f.required = false

theorem readMembers_apart {seen other : List String} {s : σ} {out : List String × σ}
    (read : r.readMembers members seen s = .ok out)
    (apart : ∀ m ∈ members, ∀ name, m.1.text = .ok name → name ∈ other → name ∈ seen) :
    ∃ names, r.readMembers members other s = .ok (names, out.2) ∧ other ⊆ names ∧
      ∀ name ∈ out.1, name ∈ names ∨ name ∈ seen := by
  induction members generalizing seen other s with
  | nil =>
    cases read
    exact ⟨other, rfl, List.Subset.refl _, fun name member => .inr member⟩
  | cons m members ih =>
    obtain ⟨seen', t, reads, read⟩ := readMembers_cons.mp read
    obtain ⟨here, later⟩ := List.forall_mem_cons.mp apart
    cases reads with
    | unknown name text unknown passed =>
      obtain ⟨names, read', grows, found⟩ := ih read later
      exact ⟨names, readMembers_cons.mpr ⟨other, s, .unknown name text unknown passed, read'⟩,
        grows, found⟩
    | field name f t text known fresh stored =>
      have apart' : ∀ m ∈ members, ∀ n, m.1.text = .ok n → n ∈ name :: other →
        n ∈ name :: seen := by
        intro m' member n text' inside
        rcases List.mem_cons.mp inside with rfl | inside
        · exact List.mem_cons_self
        · exact List.mem_cons_of_mem _ (later m' member n text' inside)
      obtain ⟨names, read', grows, found⟩ := ih read apart'
      have fresh' : name ∉ other := fun inside => fresh (here name text inside)
      refine ⟨names,
        readMembers_cons.mpr ⟨name :: other, t, .field name f t text known fresh' stored, read'⟩,
        fun n inside => grows (List.mem_cons_of_mem _ inside), ?_⟩
      intro n inside
      rcases found n inside with known | before
      · exact .inl known
      · rcases List.mem_cons.mp before with rfl | before
        · exact .inl (grows List.mem_cons_self)
        · exact .inr before

section Members

variable {key : Literal} {name : String} {value : Node} {s : σ}

theorem decode_unknown (named : key.text = .ok name) (unknown : r.field? name = none)
    (passed : value.passOver = .ok ()) (decoded : r.decode (.object members none) = .ok s) :
    r.decode (.object ((key, value) :: members) none) = .ok s := by
  obtain ⟨_, seen, read, complete⟩ := decode_object.mp decoded
  exact decode_object.mpr ⟨rfl, seen,
    readMembers_cons.mpr ⟨[], r.blank, .unknown name named unknown passed, read⟩, complete⟩

theorem decode_idle (named : key.text = .ok name) (idle : r.Idle name value)
    (absent : ∀ m ∈ members, m.1.text ≠ .ok name)
    (decoded : r.decode (.object members none) = .ok s) :
    r.decode (.object ((key, value) :: members) none) = .ok s := by
  obtain ⟨_, seen, read, complete⟩ := decode_object.mp decoded
  obtain ⟨f, known, kept⟩ := idle.kept
  have apart : ∀ m ∈ members, ∀ n, m.1.text = .ok n → n ∈ [name] → n ∈ [] := by
    intro m member n text inside
    rw [List.mem_singleton.mp inside] at text
    exact absurd text (absent m member)
  obtain ⟨names, read', _, found⟩ := readMembers_apart read apart
  refine decode_object.mpr ⟨rfl, names, readMembers_cons.mpr ⟨[name], r.blank, ?_, read'⟩, ?_⟩
  · exact .field name f r.blank named known List.not_mem_nil kept
  · rw [missing?_eq_none] at complete ⊢
    intro g inside needed
    exact (found g.name (complete g inside needed)).resolve_right List.not_mem_nil

theorem decode_of_idle (named : key.text = .ok name) (idle : r.Idle name value)
    (decoded : r.decode (.object ((key, value) :: members) none) = .ok s) :
    r.decode (.object members none) = .ok s := by
  obtain ⟨_, seen, read, complete⟩ := decode_object.mp decoded
  obtain ⟨seen', t, reads, read⟩ := readMembers_cons.mp read
  obtain ⟨f, known, kept⟩ := idle.kept
  cases reads with
  | unknown name' text unknown =>
    cases named.symm.trans text
    rw [known] at unknown
    cases unknown
  | field name' f' _ text known' _ stored =>
    cases named.symm.trans text
    cases known.symm.trans known'
    cases kept.symm.trans stored
    have apart : ∀ m ∈ members, ∀ n, m.1.text = .ok n → n ∈ [] → n ∈ [name] := by
      intro m _ n _ inside
      cases inside
    obtain ⟨names, read', _, found⟩ := readMembers_apart read apart
    refine decode_object.mpr ⟨rfl, names, read', ?_⟩
    rw [missing?_eq_none] at complete ⊢
    intro g inside needed
    refine (found g.name (complete g inside needed)).resolve_right ?_
    intro same
    have spare := idle.spare g inside (List.mem_singleton.mp same)
    rw [needed] at spare
    cases spare

end Members

end Record

/-! ## Changes of the members -/

/-- One change of the members of an object: another order, one more member with a name that is not
among `names`, or a member that comes or goes and says what is assumed without it. -/
inductive HarmlessChange (names : List String) (defaults : List (String × Node)) :
    List (Literal × Node) → List (Literal × Node) → Prop where
  | reorder {members members' : List (Literal × Node)} (order : members.Perm members') :
      HarmlessChange names defaults members members'
  | insert {before after : List (Literal × Node)} {key : Literal} {value : Node} {name : String}
      {text : List UInt8} (named : key.text = .ok name) (unknown : name ∉ names)
      (wellFormed : ValueText value text) :
      HarmlessChange names defaults (before ++ after) (before ++ (key, value) :: after)
  | add {before after : List (Literal × Node)} {key : Literal} {value : Node} {name : String}
      (named : key.text = .ok name) (assumed : (name, value) ∈ defaults)
      (absent : ∀ m ∈ before ++ after, m.1.text ≠ .ok name) :
      HarmlessChange names defaults (before ++ after) (before ++ (key, value) :: after)
  | remove {before after : List (Literal × Node)} {key : Literal} {value : Node} {name : String}
      (named : key.text = .ok name) (assumed : (name, value) ∈ defaults) :
      HarmlessChange names defaults (before ++ (key, value) :: after) (before ++ after)

theorem Record.field?_eq_none {name : String} (unknown : name ∉ r.fields.map Field.name) :
    r.field? name = none := by
  rw [Record.field?, List.find?_eq_none]
  intro f inside same
  exact unknown (List.mem_map.mpr ⟨f, inside, by simpa using same⟩)

section Changes

variable {defaults : List (String × Node)} {s : σ}

/-- A change that is harmless leaves what is read. -/
theorem HarmlessChange.decode (independent : r.Independent)
    (idle : ∀ d ∈ defaults, r.Idle d.1 d.2)
    (change : HarmlessChange (r.fields.map Field.name) defaults members members')
    (decoded : r.decode (.object members none) = .ok s) :
    r.decode (.object members' none) = .ok s := by
  cases change with
  | reorder order => exact Record.decode_perm independent order decoded
  | insert named unknown wellFormed =>
    refine Record.decode_perm independent List.perm_middle.symm ?_
    exact Record.decode_unknown named (Record.field?_eq_none unknown) wellFormed.passOver decoded
  | add named assumed absent =>
    refine Record.decode_perm independent List.perm_middle.symm ?_
    exact Record.decode_idle named (idle _ assumed) absent decoded
  | remove named assumed =>
    exact Record.decode_of_idle named (idle _ assumed)
      (Record.decode_perm independent List.perm_middle decoded)

open Relation in
theorem HarmlessChange.decode_all (independent : r.Independent)
    (idle : ∀ d ∈ defaults, r.Idle d.1 d.2)
    (changes : ReflTransGen (HarmlessChange (r.fields.map Field.name) defaults) members members')
    (decoded : r.decode (.object members none) = .ok s) :
    r.decode (.object members' none) = .ok s := by
  induction changes with
  | refl => exact decoded
  | tail _ change ih => exact change.decode independent idle ih

end Changes

/-! ## Texts -/

theorem Record.isText_of_decodeBytes {bytes : List UInt8} {s : σ}
    (decoded : decodeBytes r.decode bytes = .ok s) (brace : (skipSpace bytes).head? = some 0x7B) :
    ∃ members, IsText (.object members none) bytes := by
  obtain ⟨tail, found⟩ : ∃ tail, skipSpace bytes = 0x7B :: tail := by
    cases front : skipSpace bytes with
    | nil =>
      rw [front] at brace
      cases brace
    | cons b tail =>
      rw [front] at brace
      exact ⟨tail, by rw [Option.some.inj brace]⟩
  cases scanned : Document.scan bytes with
  | mk root trailing =>
    rw [decodeBytes, scanned] at decoded
    have object : ∃ members ending, root = .object members ending := by
      rw [Document.scan, scanValue, found] at scanned
      exact ⟨_, _, (Document.mk.inj scanned).1.symm⟩
    obtain ⟨members, ending, rfl⟩ := object
    cases read : r.decode (.object members ending) with
    | error e =>
      simp only [read] at decoded
      cases decoded
    | ok t =>
      simp only [read] at decoded
      obtain ⟨rfl, _⟩ := Record.decode_object.mp read
      cases trailing with
      | some f => cases decoded
      | none => exact ⟨members, isText_of_scan scanned⟩

end ProxyConsole
