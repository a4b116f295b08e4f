import ProxyConsole.Console.SettingsCommand
import ProxyConsole.Proofs.Toml.Arranged
import ProxyConsole.Proofs.Toml.Line
import ProxyConsole.Proofs.Toml.Part

/-!
# Edited tables

A value that is set at a path of names in a table goes into a part of the record that is
read from the table, if the names lead to one, and then nothing else changes.  Otherwise
no field changes.
-/

set_option autoImplicit false

namespace ProxyConsole

open Console Toml

/-! ## Setting a value -/

theorem Except.map_eq_ok {ε α β : Type} {f : α → β} {x : Except ε α} {b : β}
    (mapped : x.map f = .ok b) : ∃ a, x = .ok a ∧ f a = b := by
  cases x with
  | error e => cases mapped
  | ok a => exact ⟨a, rfl, Except.ok.inj mapped⟩

section Edits

variable {v : Toml} {name : String} {names : List String} {entries entries' : List (String × Toml)}

/-- What is set under the first name of a path: the value, or a table with the value set in it. -/
inductive SetsUnder (v : Toml) (name : String) (entries : List (String × Toml)) :
    List String → Toml → Prop where
  | value : SetsUnder v name entries [] v
  | table {names : List String} {inner inner' : List (String × Toml)} (deeper : names ≠ [])
      (found : entries.lookup name = some (.table inner) ∨ entries.lookup name = none ∧ inner = [])
      (edits : setAt v names inner = .ok inner') : SetsUnder v name entries names (.table inner')

theorem setAt_cons (edits : setAt v (name :: names) entries = .ok entries') :
    ∃ w, SetsUnder v name entries names w ∧ entries' = insertSorted name w entries := by
  cases names with
  | nil =>
    cases edits
    exact ⟨v, .value, rfl⟩
  | cons next names =>
    rw [setAt] at edits
    · split at edits
      · rename_i absent
        obtain ⟨inner', inner, rfl⟩ := Except.map_eq_ok edits
        exact ⟨_, .table (List.cons_ne_nil _ _) (.inr ⟨absent, rfl⟩) inner, rfl⟩
      · rename_i before found
        obtain ⟨inner', inner, rfl⟩ := Except.map_eq_ok edits
        exact ⟨_, .table (List.cons_ne_nil _ _) (.inl found) inner, rfl⟩
      · cases edits
    · simp

theorem Toml.Writable.lookup (writable : Writable Rising (.table entries))
    (found : entries.lookup name = some v) : Writable Rising v := by
  cases writable with
  | table _ each =>
    obtain ⟨before, after, rfl, -⟩ := List.lookup_eq_some_iff.mp found
    exact each _ (List.mem_append_right _ List.mem_cons_self)

theorem Toml.Writable.ascending (writable : Writable Rising (.table entries)) :
    Ascending entries := by
  cases writable with
  | table keys _ => exact rising_iff.mp keys

theorem Toml.writable_empty : Writable Rising (.table []) :=
  .table List.Pairwise.nil nofun

theorem Toml.Writable.insertSorted (writable : Writable Rising (.table entries)) (name : String)
    (value : Writable Rising v) : Writable Rising (.table (insertSorted name v entries)) := by
  cases writable with
  | table keys each =>
    refine .table (rising_iff.mpr ((rising_iff.mp keys).insertSorted name v)) fun e member => ?_
    rcases mem_insertSorted member with rfl | member
    · exact value
    · exact each e member

theorem SetsUnder.inner {inner : List (String × Toml)} (writable : Writable Rising (.table entries))
    (found : entries.lookup name = some (.table inner) ∨ entries.lookup name = none ∧ inner = []) :
    Writable Rising (.table inner) := by
  rcases found with found | ⟨-, rfl⟩
  · exact writable.lookup found
  · exact writable_empty

theorem Toml.Writable.setAt (writable : Writable Rising (.table entries))
    (value : Writable Rising v)
    (edits : setAt v names entries = .ok entries') : Writable Rising (.table entries') := by
  induction names generalizing entries entries' with
  | nil =>
    cases edits
    exact writable
  | cons name names ih =>
    obtain ⟨w, sets, rfl⟩ := setAt_cons edits
    refine writable.insertSorted name ?_
    cases sets with
    | value => exact value
    | table _ found deeper => exact ih (SetsUnder.inner writable found) deeper

end Edits

/-! ## Records that are read before and after -/

section Records

variable {σ τ α : Type}

/-- Whatever a value is set to at a path, the record read from the table differs only by
what is read from the value; and what is shown of a record has this part at the path. -/
structure Record.Addresses (r : Record σ) (names : List String) (c : Codec α) (get : σ → α)
    (set : σ → α → σ) : Prop where
  get_set : ∀ s a, get (set s a) = a
  edited : ∀ {v entries entries' s s'}, Writable Rising (.table entries) →
    setAt v names entries = .ok entries' → r.decode (Toml.table entries).node = .ok s →
    r.decode (Toml.table entries').node = .ok s' → ∃ a, c.decode v.node = .ok a ∧ s' = set s a
  shown : ∀ {s t}, ofJson? (r.encode s) = some t →
    ∃ u, ofJson? (c.encode (get s)) = some u ∧ valueAt? t.sorted names = some u.sorted

/-- Nothing that is set at a path is seen by a reader of the record. -/
def Record.Overlooks (r : Record σ) (names : List String) : Prop :=
  ∀ ⦃v entries entries' s s'⦄, Scalar v → Writable Rising (.table entries) →
    setAt v names entries = .ok entries' → r.decode (Toml.table entries).node = .ok s →
    r.decode (Toml.table entries').node = .ok s' → s' = s

variable {r : Record σ} {r' : Record τ} {name : String} {names : List String}

theorem Toml.lookup_sortedEntries (name : String) (entries : List (String × Toml)) :
    (sortedEntries entries).lookup name = (entries.lookup name).map Toml.sorted := by
  induction entries with
  | nil => rfl
  | cons e entries ih =>
    obtain ⟨key, v⟩ := e
    rw [sortedEntries]
    by_cases same : name = key
    · rw [same, lookup_insertSorted_self, List.lookup_cons_self, Option.map_some]
    · rw [lookup_insertSorted_other same, ih, List.lookup_cons, beq_eq_false_iff_ne.mpr same]

theorem Record.shown_under {c : Codec α} {get : σ → α} {set : σ → α → σ}
    (part : r.Part name c get set)
    (names : List String) {s : σ} {t : Toml} (taken : ofJson? (r.encode s) = some t) :
    ∃ u, ofJson? (c.encode (get s)) = some u ∧
      valueAt? t.sorted (name :: names) = valueAt? u.sorted names := by
  have object := taken
  rw [encode, ofJson?] at object
  obtain ⟨entries, -, rfl⟩ := Option.map_eq_some_iff.mp object
  obtain ⟨u, shown, found⟩ := part.shown taken
  refine ⟨u, shown, ?_⟩
  rw [Toml.sorted, valueAt?, Toml.get?, Toml.entries?, Option.bind_some, Toml.lookup_sortedEntries,
    found]
  rfl

theorem Record.Part.addresses {c : Codec α} {get : σ → α} {set : σ → α → σ}
    (part : r.Part name c get set) (independent : r.Independent) :
    r.Addresses [name] c get set where
  get_set := part.get_set
  edited writable edits before after := by
    cases edits
    exact part.edited independent writable.ascending before after
  shown taken := by
    obtain ⟨u, shown, value⟩ := shown_under part [] taken
    exact ⟨u, shown, value⟩

theorem Record.Part.read_inner {get : σ → τ} {set : σ → τ → σ} (part : r.Part name r'.codec get set)
    (independent : r.Independent) (blank : r'.decode (Toml.table []).node = .ok (get r.blank))
    {entries inner : List (String × Toml)} (ascending : Ascending entries)
    (found : entries.lookup name = some (.table inner) ∨ entries.lookup name = none ∧ inner = [])
    {s : σ}
    (decoded : r.decode (Toml.table entries).node = .ok s) :
    r'.decode (Toml.table inner).node = .ok (get s) := by
  rcases found with found | ⟨absent, rfl⟩
  · exact part.read_some independent ascending found decoded
  · rw [part.read_none absent decoded, blank]

/-- A part of a part is addressed through it. -/
theorem Record.Part.through {c : Codec α} {get : σ → τ} {set : σ → τ → σ} {get' : τ → α}
    {set' : τ → α → τ} (part : r.Part name r'.codec get set) (independent : r.Independent)
    (blank : r'.decode (Toml.table []).node = .ok (get r.blank)) (deeper : names ≠ [])
    (addresses : r'.Addresses names c get' set') :
    r.Addresses (name :: names) c (fun s => get' (get s)) (fun s a => set s (set' (get s) a)) where
  get_set s a := by rw [part.get_set, addresses.get_set]
  edited writable edits before after := by
    obtain ⟨w, sets, rfl⟩ := setAt_cons edits
    obtain ⟨b, read, rfl⟩ := part.edited independent writable.ascending before after
    cases sets with
    | value => exact absurd rfl deeper
    | table _ found inner =>
      have before' := part.read_inner independent blank writable.ascending found before
      obtain ⟨a, read', rfl⟩ := addresses.edited (SetsUnder.inner writable found) inner before' read
      exact ⟨a, read', rfl⟩
  shown taken := by
    obtain ⟨u, shown, value⟩ := shown_under part names taken
    obtain ⟨u', shown', value'⟩ := addresses.shown shown
    exact ⟨u', shown', value.trans value'⟩

/-! ## Paths that lead nowhere -/

theorem Record.overlooks_unknown (independent : r.Independent) (unknown : r.field? name = none) :
    r.Overlooks (name :: names) := by
  intro v entries entries' s s' _ writable edits before after
  obtain ⟨w, _, rfl⟩ := setAt_cons edits
  exact edited_unknown independent unknown writable.ascending before after

theorem Record.overlooks_below (independent : r.Independent) {f : Field σ}
    (known : r.field? name = some f)
    (refuses : ∀ entries s t, f.store (Toml.table entries).node s ≠ .ok t) (deeper : names ≠ []) :
    r.Overlooks (name :: names) := by
  intro v entries entries' s s' _ writable edits before after
  obtain ⟨w, sets, rfl⟩ := setAt_cons edits
  obtain ⟨t, u, stored⟩ := edited_stored independent known writable.ascending after
  cases sets with
  | value => exact absurd rfl deeper
  | table => exact absurd stored (refuses _ t u)

theorem Record.Part.overlooks {get : σ → τ} {set : σ → τ → σ} (part : r.Part name r'.codec get set)
    (independent : r.Independent) : r.Overlooks [name] := by
  intro v entries entries' s s' scalar writable edits before after
  cases edits
  obtain ⟨a, read, _⟩ := part.edited independent writable.ascending before after
  cases scalar <;> cases read

theorem Record.Part.overlooks_through {get : σ → τ} {set : σ → τ → σ}
    (part : r.Part name r'.codec get set)
    (independent : r.Independent) (blank : r'.decode (Toml.table []).node = .ok (get r.blank))
    (deeper : names ≠ []) (overlooks : r'.Overlooks names) : r.Overlooks (name :: names) := by
  intro v entries entries' s s' scalar writable edits before after
  obtain ⟨w, sets, rfl⟩ := setAt_cons edits
  obtain ⟨b, read, rfl⟩ := part.edited independent writable.ascending before after
  cases sets with
  | value => exact absurd rfl deeper
  | table _ found inner =>
    have before' := part.read_inner independent blank writable.ascending found before
    rw [overlooks scalar (SetsUnder.inner writable found) inner before' read, part.set_get]

end Records

end ProxyConsole
