import ProxyConsole.Proofs.Json.Harmless
import ProxyConsole.Proofs.Toml.Tree

/-!
# One entry of a table

A record is read from a table.  When one entry of the table is set, the field of this
name is read anew and all other fields stay as they were; if no field has the name,
nothing changes.
-/

set_option autoImplicit false

namespace ProxyConsole

open Json

/-! ## Entries apart from one -/

section Entries

variable {α : Type} {key : String} {value : α} {entries : List (String × α)}

/-- The entries that have another key. -/
def withoutKey (key : String) (entries : List (String × α)) : List (String × α) :=
  entries.filter fun e => e.1 ≠ key

theorem withoutKey_eq_self (absent : ∀ e ∈ entries, e.1 ≠ key) : withoutKey key entries = entries :=
  List.filter_eq_self.mpr fun e member => by simpa using absent e member

theorem lookup_insertSorted_self (key : String) (value : α) (entries : List (String × α)) :
    (insertSorted key value entries).lookup key = some value := by
  induction entries with
  | nil => rw [insertSorted, List.lookup_cons_self]
  | cons e entries ih =>
    obtain ⟨k, v⟩ := e
    rw [insertSorted]
    split
    · rw [List.lookup_cons_self]
    · split
      · rw [List.lookup_cons_self]
      · rename_i differ
        rw [List.lookup_cons, beq_eq_false_iff_ne.mpr differ]
        exact ih

theorem lookup_insertSorted_other {name : String} (differ : name ≠ key) (value : α)
    (entries : List (String × α)) :
    (insertSorted key value entries).lookup name = entries.lookup name := by
  have passed := beq_eq_false_iff_ne.mpr differ
  induction entries with
  | nil => rw [insertSorted, List.lookup_cons, passed]
  | cons e entries ih =>
    obtain ⟨k, v⟩ := e
    rw [insertSorted]
    split
    · rw [List.lookup_cons, passed]
    · split
      · rename_i same
        subst same
        rw [List.lookup_cons, List.lookup_cons, passed]
      · rw [List.lookup_cons, List.lookup_cons, ih]

theorem withoutKey_insertSorted (key : String) (value : α) (entries : List (String × α)) :
    withoutKey key (insertSorted key value entries) = withoutKey key entries := by
  have here : ∀ (v : α) rest, withoutKey key ((key, v) :: rest) = withoutKey key rest :=
    fun v rest => List.filter_cons_of_neg (by simp)
  induction entries with
  | nil => exact here value []
  | cons e entries ih =>
    obtain ⟨k, v⟩ := e
    rw [insertSorted]
    split
    · exact here value _
    · split
      · rename_i same
        subst same
        rw [here, here]
      · rename_i differ
        have other : ∀ rest : List (String × α),
            withoutKey key ((k, v) :: rest) = (k, v) :: withoutKey key rest :=
          fun rest => List.filter_cons_of_pos (by simpa using Ne.symm differ)
        rw [other, other, ih]

theorem Ascending.perm_withoutKey (ascending : Ascending entries)
    (found : entries.lookup key = some value) :
    entries.Perm ((key, value) :: withoutKey key entries) := by
  induction entries with
  | nil => cases found
  | cons e entries ih =>
    obtain ⟨k, v⟩ := e
    obtain ⟨first, others⟩ := List.pairwise_cons.mp ascending
    by_cases same : key = k
    · subst same
      rw [List.lookup_cons_self] at found
      cases found
      have rest : withoutKey key ((key, value) :: entries) = entries := by
        refine (List.filter_cons_of_neg (by simp)).trans (withoutKey_eq_self fun e member => ?_)
        exact ne_of_gt (first e member)
      rw [rest]
    · have other : withoutKey key ((k, v) :: entries) = (k, v) :: withoutKey key entries :=
        List.filter_cons_of_pos (by simpa using Ne.symm same)
      rw [List.lookup_cons, beq_eq_false_iff_ne.mpr same] at found
      rw [other]
      exact ((ih others found).cons _).trans (.swap _ _ _)

theorem withoutKey_of_lookup (absent : entries.lookup key = none) :
    withoutKey key entries = entries :=
  withoutKey_eq_self fun e member =>
    Ne.symm (bne_iff_ne.mp (List.lookup_eq_none_iff.mp absent e member))

end Entries

/-! ## Parts -/

/-- A field is stored to the same effect whether or not something else was set before. -/
def Field.Ignores {σ α : Type} (f : Field σ) (set : σ → α → σ) : Prop :=
  ∀ node s a, f.store node (set s a) = (f.store node s).map fun t => set t a

@[simp]
theorem Field.name_of {σ α : Type} (name : String) (c : Codec α) (get : σ → α) (set : σ → α → σ)
    (required : Bool) : (Field.of name c get set required).name = name :=
  rfl

theorem Field.ignores_of {σ α β : Type} {c : Codec β} {name : String} {get : σ → β}
    {set' : σ → β → σ}
    {required : Bool} {set : σ → α → σ} (apart : ∀ s a b, set' (set s a) b = set (set' s b) a) :
    (Field.of name c get set' required).Ignores set := by
  intro node s a
  simp only [Field.of]
  cases c.decode node with
  | error e => rfl
  | ok b => exact congrArg Except.ok (apart s a b)

namespace Record

variable {σ α : Type} {r : Record σ}

/-- A field that reads, writes and shows one part of a record and leaves all other fields alone. -/
structure Part (r : Record σ) (name : String) (c : Codec α) (get : σ → α) (set : σ → α → σ) :
    Prop where
  known : ∃ f, r.field? name = some f ∧ (∀ node s, f.store node s = (c.decode node).map (set s)) ∧
    ∀ s, f.render s = some (c.encode (get s))
  apart : ∀ g ∈ r.fields, g.name ≠ name → g.Ignores set
  get_set : ∀ s a, get (set s a) = a
  set_get : ∀ s, set s (get s) = s
  set_set : ∀ s a b, set (set s a) b = set s b

variable {name : String} {c : Codec α} {get : σ → α} {set : σ → α → σ}

theorem part_of {required : Bool} (known : r.field? name = some (.of name c get set required))
    (apart : ∀ g ∈ r.fields, g.name ≠ name → g.Ignores set) (get_set : ∀ s a, get (set s a) = a)
    (set_get : ∀ s, set s (get s) = s) (set_set : ∀ s a b, set (set s a) b = set s b) :
    r.Part name c get set :=
  ⟨⟨_, known, fun _ _ => rfl, fun _ => rfl⟩, apart, get_set, set_get, set_set⟩

theorem Part.readMembers_set (part : r.Part name c get set) {members : List (Literal × Node)}
    (others : ∀ m ∈ members, m.1.text ≠ .ok name) (seen : List String) (s : σ) (a : α) :
    r.readMembers members seen (set s a) =
      (r.readMembers members seen s).map fun p => (p.1, set p.2 a) := by
  induction members generalizing seen s with
  | nil => rfl
  | cons m members ih =>
    obtain ⟨key, value⟩ := m
    obtain ⟨other, others⟩ := List.forall_mem_cons.mp others
    rw [readMembers, readMembers]
    cases text : key.text with
    | error e => rfl
    | ok n =>
      dsimp only [liftFault]
      cases found : r.field? n with
      | none =>
        dsimp only
        cases value.passOver with
        | error e => rfl
        | ok passed => exact ih others seen s
      | some f =>
        obtain ⟨inside, called⟩ := name_of_field? found
        have differ : f.name ≠ name := by
          rintro same
          rw [same] at called
          exact other (by rw [text, called])
        dsimp only
        split
        · rfl
        · rw [part.apart f inside differ]
          cases f.store value s with
          | error e => rfl
          | ok t => exact ih others (n :: seen) t

section Tables

variable {entries : List (String × Toml)} {v : Toml} {s s' : σ}

/-- The members of the other entries. -/
def others (name : String) (entries : List (String × Toml)) : List (Literal × Node) :=
  Toml.memberNodes (withoutKey name entries)

theorem others_apart : ∀ m ∈ others name entries, m.1.text ≠ .ok name := by
  intro m member
  rw [others, Toml.memberNodes_eq_map] at member
  obtain ⟨e, inside, rfl⟩ := List.mem_map.mp member
  rintro same
  cases same
  simpa using (List.mem_filter.mp inside).2

theorem decode_apart (independent : r.Independent) (ascending : Ascending entries)
    (found : entries.lookup name = some v) (decoded : r.decode (Toml.table entries).node = .ok s) :
    ∃ seen t seen', r.ReadsMember (Toml.literal name, v.node) [] r.blank seen t ∧
      r.readMembers (others name entries) seen t = .ok (seen', s) := by
  have order := (ascending.perm_withoutKey found).map fun e => (Toml.literal e.1, e.2.node)
  rw [Toml.node, Toml.memberNodes_eq_map] at decoded
  obtain ⟨_, seen', read, _⟩ := decode_object.mp (decode_perm independent order decoded)
  obtain ⟨seen, t, reads, read⟩ := readMembers_cons.mp read
  exact ⟨seen, t, seen', reads, by rwa [others, Toml.memberNodes_eq_map]⟩

theorem Part.decode_some (part : r.Part name c get set) (independent : r.Independent)
    (ascending : Ascending entries) (found : entries.lookup name = some v)
    (decoded : r.decode (Toml.table entries).node = .ok s) :
    ∃ a seen t, c.decode v.node = .ok a ∧
      r.readMembers (others name entries) [name] r.blank = .ok (seen, t) ∧ s = set t a := by
  obtain ⟨f, known, store, -⟩ := part.known
  obtain ⟨seen, t, seen', reads, read⟩ := decode_apart independent ascending found decoded
  cases reads with
  | unknown name' text unknown =>
    cases text
    rw [known] at unknown
    cases unknown
  | field name' f' t text known' fresh stored =>
    cases text
    cases known.symm.trans known'
    rw [store] at stored
    obtain ⟨a, read', rfl⟩ : ∃ a, c.decode v.node = .ok a ∧ set r.blank a = t := by
      cases read' : c.decode v.node with
      | error e =>
        rw [read'] at stored
        cases stored
      | ok a =>
        rw [read'] at stored
        exact ⟨a, rfl, Except.ok.inj stored⟩
    rw [part.readMembers_set others_apart] at read
    cases rest : r.readMembers (others name entries) [name] r.blank with
    | error e =>
      rw [rest] at read
      cases read
    | ok p =>
      rw [rest] at read
      cases read
      exact ⟨a, p.1, p.2, read', rfl, rfl⟩

theorem decode_none (absent : entries.lookup name = none)
    (decoded : r.decode (Toml.table entries).node = .ok s) :
    ∃ seen, r.readMembers (others name entries) [name] r.blank = .ok (seen, s) := by
  obtain ⟨_, seen, read, _⟩ := decode_object.mp decoded
  have whole : others name entries = Toml.memberNodes entries := by
    rw [others, withoutKey_of_lookup absent]
  rw [← whole] at read
  obtain ⟨names, read', _⟩ := readMembers_apart read fun m member n text inside =>
    absurd text (List.mem_singleton.mp inside ▸ others_apart m member)
  exact ⟨names, read'⟩

theorem Part.edited (part : r.Part name c get set) (independent : r.Independent)
    (ascending : Ascending entries) (before : r.decode (Toml.table entries).node = .ok s)
    (after : r.decode (Toml.table (insertSorted name v entries)).node = .ok s') :
    ∃ a, c.decode v.node = .ok a ∧ s' = set s a := by
  obtain ⟨a, seen, t, read, rest, rfl⟩ :=
    part.decode_some independent (ascending.insertSorted name v)
    (lookup_insertSorted_self name v entries) after
  refine ⟨a, read, ?_⟩
  rw [others, withoutKey_insertSorted, ← others] at rest
  cases found : entries.lookup name with
  | none =>
    obtain ⟨seen', rest'⟩ := decode_none found before
    cases rest.symm.trans rest'
    rfl
  | some w =>
    obtain ⟨b, seen', t', _, rest', rfl⟩ := part.decode_some independent ascending found before
    cases rest.symm.trans rest'
    exact (part.set_set t b a).symm

theorem Part.read_some (part : r.Part name c get set) (independent : r.Independent)
    (ascending : Ascending entries) (found : entries.lookup name = some v)
    (decoded : r.decode (Toml.table entries).node = .ok s) : c.decode v.node = .ok (get s) := by
  obtain ⟨a, seen, t, read, _, rfl⟩ := part.decode_some independent ascending found decoded
  rw [part.get_set, read]

theorem Part.read_none (part : r.Part name c get set) (absent : entries.lookup name = none)
    (decoded : r.decode (Toml.table entries).node = .ok s) : get s = get r.blank := by
  obtain ⟨seen, read⟩ := decode_none absent decoded
  have kept := part.readMembers_set (@others_apart name entries) [name] r.blank (get r.blank)
  rw [part.set_get, read] at kept
  have same := (Prod.mk.inj (Except.ok.inj kept)).2
  rw [same, part.get_set]

theorem edited_unknown (independent : r.Independent) (unknown : r.field? name = none)
    (ascending : Ascending entries) (before : r.decode (Toml.table entries).node = .ok s)
    (after : r.decode (Toml.table (insertSorted name v entries)).node = .ok s') : s' = s := by
  have passed : ∀ {entries : List (String × Toml)} {w : Toml} {t : σ}, Ascending entries →
      entries.lookup name = some w → r.decode (Toml.table entries).node = .ok t →
      ∃ seen, r.readMembers (others name entries) [] r.blank = .ok (seen, t) := by
    intro entries w t ascending found decoded
    obtain ⟨seen, t', seen', reads, read⟩ := decode_apart independent ascending found decoded
    cases reads with
    | unknown => exact ⟨seen', read⟩
    | field name' f t' text known =>
      cases text
      rw [unknown] at known
      cases known
  obtain ⟨seen, rest⟩ :=
    passed (ascending.insertSorted name v) (lookup_insertSorted_self name v entries) after
  rw [others, withoutKey_insertSorted, ← others] at rest
  have rest' : ∃ seen, r.readMembers (others name entries) [] r.blank = .ok (seen, s) := by
    cases found : entries.lookup name with
    | none =>
      obtain ⟨_, seen, read, _⟩ := decode_object.mp before
      exact ⟨seen, by rwa [others, withoutKey_of_lookup found]⟩
    | some w => exact passed ascending found before
  obtain ⟨seen', rest'⟩ := rest'
  cases rest.symm.trans rest'
  rfl

theorem edited_stored {f : Field σ} (independent : r.Independent) (known : r.field? name = some f)
    (ascending : Ascending entries)
    (after : r.decode (Toml.table (insertSorted name v entries)).node = .ok s') :
    ∃ t u, f.store v.node t = .ok u := by
  obtain ⟨seen, t, seen', reads, _⟩ := decode_apart independent (ascending.insertSorted name v)
    (lookup_insertSorted_self name v entries) after
  cases reads with
  | unknown name' text unknown =>
    cases text
    rw [known] at unknown
    cases unknown
  | field name' f' t text known' fresh stored =>
    cases text
    cases known.symm.trans known'
    exact ⟨_, t, stored⟩

end Tables

/-! ## What is shown -/

theorem membersOf_lookup {fields : List (Field σ)} {f : Field σ} {s : σ} {j : Json}
    (found : fields.find? (·.name = name) = some f) (rendered : f.render s = some j) :
    (membersOf s fields).lookup name = some j := by
  induction fields with
  | nil => cases found
  | cons g fields ih =>
    rw [membersOf, List.filterMap_cons]
    by_cases same : g.name = name
    · rw [List.find?_cons_of_pos (by simpa using same)] at found
      cases found
      rw [rendered, ← same]
      exact List.lookup_cons_self
    · rw [List.find?_cons_of_neg (by simpa using same)] at found
      cases g.render s with
      | none => exact ih found
      | some j' =>
        dsimp only [Option.map_some]
        rw [List.lookup_cons, beq_eq_false_iff_ne.mpr (Ne.symm same)]
        exact ih found

theorem lookup_of_ofJsonMembers? {members : List (String × Json)} {entries : List (String × Toml)}
    (taken : Toml.ofJsonMembers? members = some entries) {j : Json}
    (found : members.lookup name = some j) :
    ∃ u, Toml.ofJson? j = some u ∧ entries.lookup name = some u := by
  induction members generalizing entries with
  | nil => cases found
  | cons m members ih =>
    obtain ⟨key, value⟩ := m
    simp only [Toml.ofJsonMembers?, Option.bind_eq_bind, Option.pure_def,
      Option.bind_eq_some_iff] at taken
    obtain ⟨u, taken, more, others, same⟩ := taken
    cases same
    rw [List.lookup_cons] at found ⊢
    split at found
    · cases found
      exact ⟨u, taken, rfl⟩
    · exact ih others found

theorem Part.shown (part : r.Part name c get set) {s : σ} {entries : List (String × Toml)}
    (taken : Toml.ofJson? (r.encode s) = some (.table entries)) :
    ∃ u, Toml.ofJson? (c.encode (get s)) = some u ∧ entries.lookup name = some u := by
  obtain ⟨f, known, _, render⟩ := part.known
  rw [encode, Toml.ofJson?] at taken
  obtain ⟨entries', members, same⟩ := Option.map_eq_some_iff.mp taken
  cases same
  exact lookup_of_ofJsonMembers? members (membersOf_lookup known (render s))

end Record

end ProxyConsole
