import ProxyConsole.Proofs.Json.Collection
import ProxyConsole.Proofs.Toml.Moment
import ProxyConsole.Toml.Document

/-!
# Values that can be written

The integers and moments of a document that was read have texts of their own, and the
keys of its tables are in order, however its tables were put together.
-/

set_option autoImplicit false

namespace ProxyConsole.Toml

/-- A value whose integers and moments can be written, and whose tables have keys as `order`
says. -/
inductive Writable (order : List String → Prop) : Toml → Prop where
  | string (s : String) : Writable order (.string s)
  | integer {i : Int} (fits : fitsInteger i = true) : Writable order (.integer i)
  | float (bits : UInt64) : Writable order (.float bits)
  | bool (b : Bool) : Writable order (.bool b)
  | moment {m : Moment} (fits : m.Fits) : Writable order (.moment m)
  | array {items : List Toml} (each : ∀ item ∈ items, Writable order item) :
    Writable order (.array items)
  | table {entries : List (String × Toml)} (keys : order (entries.map Prod.fst))
      (each : ∀ e ∈ entries, Writable order e.2) : Writable order (.table entries)

/-- The keys of a table that was read: in order, none of them twice. -/
abbrev Rising (keys : List String) : Prop :=
  keys.Pairwise (· < ·)

theorem rising_iff {α : Type} {entries : List (String × α)} :
    Rising (entries.map Prod.fst) ↔ Ascending entries := by
  rw [Rising, List.pairwise_map, Ascending]

theorem Rising.nodup {keys : List String} (rising : Rising keys) : keys.Nodup :=
  rising.imp fun before => ne_of_lt before

theorem Writable.mono {order order' : List String → Prop}
    (weaker : ∀ keys, order keys → order' keys) {v : Toml} (writable : Writable order v) :
    Writable order' v := by
  induction writable with
  | string s => exact .string s
  | integer fits => exact .integer fits
  | float bits => exact .float bits
  | bool b => exact .bool b
  | moment fits => exact .moment fits
  | array _ ih => exact .array ih
  | table keys _ ih => exact .table (weaker _ keys) ih

/-! ## Tables that are put together -/

/-- Something under a key all of whose values can be written. -/
inductive Slot.Writable : Slot → Prop where
  | value {v : Toml} (writable : Toml.Writable Rising v) : Slot.Writable (.value v)
  | table {origin : Origin} {slots : Slots} (each : ∀ s ∈ slots, Slot.Writable s.2) :
      Slot.Writable (.table origin slots)
  | series {rows : List Slots} (each : ∀ row ∈ rows, ∀ s ∈ row, Slot.Writable s.2) :
      Slot.Writable (.series rows)

def WritableSlots (slots : Slots) : Prop :=
  ∀ s ∈ slots, s.2.Writable

theorem writableSlots_nil : WritableSlots [] :=
  nofun

theorem writable_entriesOf {slots : Slots} (each : ∀ s ∈ slots, Writable Rising s.2.toToml) :
    Writable Rising (.table (entriesOf slots)) := by
  have whole : Ascending (entriesOf slots) ∧ ∀ e ∈ entriesOf slots, Writable Rising e.2 := by
    induction slots with
    | nil => exact ⟨List.Pairwise.nil, nofun⟩
    | cons s slots ih =>
      obtain ⟨first, others⟩ := List.forall_mem_cons.mp each
      obtain ⟨ascending, inner⟩ := ih others
      refine ⟨ascending.insertSorted _ _, fun e member => ?_⟩
      rcases mem_insertSorted member with rfl | member
      · exact first
      · exact inner e member
  exact .table (rising_iff.mpr whole.1) whole.2

theorem rowsOf_eq_map (rows : List Slots) :
    rowsOf rows = rows.map fun row => .table (entriesOf row) := by
  induction rows with
  | nil => rfl
  | cons row rows ih => rw [rowsOf, ih, List.map_cons]

theorem Slot.Writable.toToml {slot : Slot} (writable : slot.Writable) :
    Toml.Writable Rising slot.toToml := by
  induction writable with
  | value writable => exact writable
  | table _ ih => exact writable_entriesOf ih
  | @series rows _ ih =>
    rw [Slot.toToml, rowsOf_eq_map]
    refine .array (List.forall_mem_map.mpr fun row member => ?_)
    exact writable_entriesOf (ih row member)

theorem WritableSlots.putSlot {slots : Slots} (writable : WritableSlots slots) {slot : Slot}
    (put : slot.Writable) (key : String) : WritableSlots (putSlot key slot slots) := by
  induction slots with
  | nil => exact List.forall_mem_singleton.mpr put
  | cons s slots ih =>
    obtain ⟨first, others⟩ := List.forall_mem_cons.mp writable
    rw [Toml.putSlot]
    split
    · exact List.forall_mem_cons.mpr ⟨put, others⟩
    · exact List.forall_mem_cons.mpr ⟨first, ih others⟩

theorem WritableSlots.lookup {slots : Slots} (writable : WritableSlots slots) {key : String}
    {slot : Slot} (found : slots.lookup key = some slot) : slot.Writable := by
  obtain ⟨before, after, rfl, -⟩ := List.lookup_eq_some_iff.mp found
  exact writable _ (List.mem_append_right _ List.mem_cons_self)

/-- A change that keeps tables such that they can be written. -/
def KeepsWritable (change : Origin → Slots → Option Slots) : Prop :=
  ∀ origin slots slots', WritableSlots slots → change origin slots = some slots' →
    WritableSlots slots'

theorem KeepsWritable.changeAt {change : Origin → Slots → Option Slots}
    (keeps : KeepsWritable change)
    (joined : Bool) (keys : List String) : KeepsWritable (changeAt joined change keys) := by
  induction keys with
  | nil => exact keeps
  | cons key keys ih =>
    intro origin slots slots' writable changed
    rw [Toml.changeAt] at changed
    split at changed
    · obtain ⟨inner, changed', rfl⟩ := Option.map_eq_some_iff.mp changed
      exact writable.putSlot (.table (ih _ _ _ writableSlots_nil changed')) key
    · cases changed
    · rename_i found
      split at changed
      · cases changed
      · obtain ⟨inner, changed', rfl⟩ := Option.map_eq_some_iff.mp changed
        cases writable.lookup found with
        | table each => exact writable.putSlot (.table (ih _ _ _ each changed')) key
    · rename_i rows found
      split at changed
      · cases changed
      · rename_i row last
        obtain ⟨inner, changed', rfl⟩ := Option.map_eq_some_iff.mp changed
        cases writable.lookup found with
        | series each =>
          have inside := ih _ _ _ (each row (List.mem_of_getLast? last)) changed'
          refine writable.putSlot
            (.series (List.forall_mem_append.mpr ⟨fun row' member => ?_, ?_⟩)) key
          · exact each row' (List.dropLast_subset _ member)
          · exact List.forall_mem_singleton.mpr inside

theorem keepsWritable_setKey (isDirect : Bool) (key : String) {v : Toml}
    (writable : Writable Rising v) : KeepsWritable (setKey isDirect key v) := by
  intro origin slots slots' before changed
  rw [setKey] at changed
  split at changed
  · cases changed
  · split at changed
    · cases changed
    · cases changed
      exact List.forall_mem_append.mpr ⟨before, List.forall_mem_singleton.mpr (.value writable)⟩

theorem WritableSlots.addPairs {pairs : List Pair} (values : ∀ p ∈ pairs, Writable Rising p.value)
    {slots slots' : Slots} (writable : WritableSlots slots)
    (added : addPairs slots pairs = some slots') :
    WritableSlots slots' := by
  induction pairs generalizing slots with
  | nil =>
    cases added
    exact writable
  | cons p pairs ih =>
    obtain ⟨first, others⟩ := List.forall_mem_cons.mp values
    obtain ⟨between, changed, later⟩ := Option.bind_eq_some_iff.mp added
    exact ih others ((keepsWritable_setKey _ _ first).changeAt _ _ _ _ _ writable changed) later

theorem keepsWritable_completeTable (key : String) {pairs : List Pair}
    (values : ∀ p ∈ pairs, Writable Rising p.value) : KeepsWritable (completeTable key pairs) := by
  intro origin slots slots' before changed
  rw [completeTable] at changed
  split at changed
  · obtain ⟨inner, added, rfl⟩ := Option.map_eq_some_iff.mp changed
    exact before.putSlot (.table (writableSlots_nil.addPairs values added)) key
  · rename_i found
    obtain ⟨inner, added, rfl⟩ := Option.map_eq_some_iff.mp changed
    cases before.lookup found with
    | table each => exact before.putSlot (.table (WritableSlots.addPairs values each added)) key
  · cases changed

theorem keepsWritable_addRow (key : String) {pairs : List Pair}
    (values : ∀ p ∈ pairs, Writable Rising p.value) : KeepsWritable (addRow key pairs) := by
  intro origin slots slots' before changed
  rw [addRow] at changed
  split at changed
  · obtain ⟨inner, added, rfl⟩ := Option.map_eq_some_iff.mp changed
    refine before.putSlot (.series (List.forall_mem_singleton.mpr ?_)) key
    exact writableSlots_nil.addPairs values added
  · rename_i found
    obtain ⟨inner, added, rfl⟩ := Option.map_eq_some_iff.mp changed
    cases before.lookup found with
    | series each =>
      refine before.putSlot (.series (List.forall_mem_append.mpr ⟨each, ?_⟩)) key
      exact List.forall_mem_singleton.mpr (writableSlots_nil.addPairs values added)
  · cases changed

theorem WritableSlots.addBlocks {bs : List Block}
    (values : ∀ b ∈ bs, ∀ p ∈ b.pairs, Writable Rising p.value) {slots slots' : Slots}
    (writable : WritableSlots slots) (added : addBlocks slots bs = some slots') :
    WritableSlots slots' := by
  induction bs generalizing slots with
  | nil =>
    cases added
    exact writable
  | cons b bs ih =>
    obtain ⟨first, others⟩ := List.forall_mem_cons.mp values
    obtain ⟨between, changed, later⟩ := Option.bind_eq_some_iff.mp added
    refine ih others ?_ later
    rw [addBlock] at changed
    split at changed
    · exact (keepsWritable_completeTable _ first).changeAt _ _ _ _ _ writable changed
    · exact (keepsWritable_addRow _ first).changeAt _ _ _ _ _ writable changed

/-! ## What is scanned -/

theorem integer?_writable {i : Int} {v : Toml} (taken : integer? i = some v) :
    Writable Rising v := by
  rw [integer?] at taken
  split at taken
  · rename_i fits
    cases taken
    exact .integer fits
  · cases taken

section Scanned

variable {cs rest : List Char} {v : Toml}

theorem scanBased_writable {base : Nat} (scanned : scanBased base cs = some (v, rest)) :
    Writable Rising v := by
  simp only [scanBased, Option.bind_eq_bind, Option.bind_eq_some_iff, Option.pure_def,
    Option.some.injEq, Prod.mk.injEq] at scanned
  obtain ⟨_, _, v', taken, rfl, _⟩ := scanned
  exact integer?_writable taken

theorem scanDecimal_writable {negative : Bool}
    (scanned : scanDecimal negative cs = some (v, rest)) : Writable Rising v := by
  simp only [scanDecimal, Option.bind_eq_bind, Option.bind_eq_some_iff, Option.pure_def] at scanned
  obtain ⟨⟨whole, left⟩, _, scanned⟩ := scanned
  dsimp only at scanned
  split at scanned
  all_goals
    split at scanned
    · simp only [Option.bind_eq_some_iff, Option.some.injEq, Prod.mk.injEq] at scanned
      obtain ⟨_, _, _, _, bits, _, rfl, _⟩ := scanned
      exact .float bits
    · simp only [Option.bind_eq_some_iff, Option.some.injEq, Prod.mk.injEq] at scanned
      obtain ⟨v', taken, rfl, _⟩ := scanned
      exact integer?_writable taken

theorem scanMagnitude_writable {negative : Bool}
    (scanned : scanMagnitude negative cs = some (v, rest)) : Writable Rising v := by
  unfold scanMagnitude at scanned
  split at scanned
  · cases scanned
    exact .float _
  · cases scanned
    exact .float _
  · exact scanDecimal_writable scanned

theorem scanNumeral_writable (scanned : scanNumeral cs = some (v, rest)) : Writable Rising v := by
  unfold scanNumeral at scanned
  split at scanned
  · exact scanMagnitude_writable scanned
  · exact scanMagnitude_writable scanned
  · exact scanBased_writable scanned
  · exact scanBased_writable scanned
  · exact scanBased_writable scanned
  · exact scanMagnitude_writable scanned

theorem scanScalar_writable (scanned : scanScalar cs = some (v, rest)) : Writable Rising v := by
  unfold scanScalar at scanned
  split at scanned
  · cases scanned
  split at scanned
  · obtain ⟨_, _, same⟩ := Option.map_eq_some_iff.mp scanned
    cases same
    exact .string _
  split at scanned
  · obtain ⟨_, _, same⟩ := Option.map_eq_some_iff.mp scanned
    cases same
    exact .bool true
  split at scanned
  · obtain ⟨_, _, same⟩ := Option.map_eq_some_iff.mp scanned
    cases same
    exact .bool false
  split at scanned
  · obtain ⟨_, dated, same⟩ := Option.map_eq_some_iff.mp scanned
    cases same
    exact .moment (scanDated_fits dated)
  split at scanned
  · obtain ⟨_, timed, same⟩ := Option.map_eq_some_iff.mp scanned
    cases same
    exact .moment (scanTimed_fits timed)
  · exact scanNumeral_writable scanned

theorem tableOfPairs?_writable {pairs : List Pair} (values : ∀ p ∈ pairs, Writable Rising p.value)
    (made : tableOfPairs? pairs = some v) : Writable Rising v := by
  obtain ⟨slots, added, rfl⟩ := Option.map_eq_some_iff.mp made
  exact writable_entriesOf fun s member =>
    ((writableSlots_nil.addPairs values added) s member).toToml

/-- What the scanners of values, of items and of pairs give with some fuel. -/
structure ScansWritable (fuel : Nat) : Prop where
  value : ∀ room cs v rest, scanValue fuel room cs = some (v, rest) → Writable Rising v
  items : ∀ room cs items rest, scanItems fuel room cs = some (items, rest) →
    ∀ item ∈ items, Writable Rising item
  pairs : ∀ room cs pairs rest, scanPairs fuel room cs = some (pairs, rest) →
    ∀ p ∈ pairs, Writable Rising p.value

theorem scansWritable (fuel : Nat) : ScansWritable fuel := by
  induction fuel with
  | zero => exact ⟨nofun, nofun, nofun⟩
  | succ fuel ih =>
    constructor
    case value =>
      intro room cs v rest scanned
      cases cs with
      | nil => cases scanned
      | cons c cs =>
        rw [scanValue] at scanned
        split at scanned
        · split at scanned
          · cases scanned
          · obtain ⟨⟨items, _⟩, inner, same⟩ := Option.map_eq_some_iff.mp scanned
            cases same
            exact .array (ih.items _ _ _ _ inner)
        split at scanned
        · split at scanned
          · cases scanned
          split at scanned
          · cases scanned
            exact .table List.Pairwise.nil nofun
          · split at scanned
            · cases scanned
            · rename_i inner
              obtain ⟨t, made, same⟩ := Option.map_eq_some_iff.mp scanned
              cases same
              exact tableOfPairs?_writable (ih.pairs _ _ _ _ inner) made
        · exact scanScalar_writable scanned
    case items =>
      intro room cs items rest scanned
      cases cs with
      | nil => cases scanned
      | cons c cs =>
        rw [scanItems] at scanned
        split at scanned
        · cases scanned
          nofun
        split at scanned
        · cases scanned
        rename_i inner
        have first := ih.value _ _ _ _ inner
        split at scanned
        · obtain ⟨⟨items, _⟩, later, same⟩ := Option.map_eq_some_iff.mp scanned
          cases same
          exact List.forall_mem_cons.mpr ⟨first, ih.items _ _ _ _ later⟩
        · cases scanned
          exact List.forall_mem_singleton.mpr first
        · cases scanned
    case pairs =>
      intro room cs pairs rest scanned
      rw [scanPairs] at scanned
      split at scanned
      · split at scanned
        · cases scanned
        rename_i inner
        have first := ih.value _ _ _ _ inner
        split at scanned
        · obtain ⟨⟨pairs, _⟩, later, same⟩ := Option.map_eq_some_iff.mp scanned
          cases same
          exact List.forall_mem_cons.mpr ⟨first, ih.pairs _ _ _ _ later⟩
        · cases scanned
          exact List.forall_mem_singleton.mpr first
        · cases scanned
      · cases scanned

end Scanned

/-! ## Documents -/

def Statement.Writable : Statement → Prop
  | .pair p => Toml.Writable Rising p.value
  | .header _ => True

theorem scanStatement_writable {cs rest : List Char} {statement : Statement}
    (scanned : scanStatement cs = some (statement, rest)) : statement.Writable := by
  unfold scanStatement at scanned
  split at scanned
  · obtain ⟨_, _, same⟩ := Option.map_eq_some_iff.mp scanned
    cases same
    trivial
  · obtain ⟨⟨p, _⟩, pair, same⟩ := Option.map_eq_some_iff.mp scanned
    cases same
    unfold scanPair at pair
    split at pair
    · obtain ⟨⟨v, _⟩, value, same⟩ := Option.map_eq_some_iff.mp pair
      cases same
      exact (scansWritable _).value _ _ _ _ value
    · cases pair

theorem scanStatements_writable {fuel : Nat} {cs : List Char} {statements : List Statement}
    (scanned : scanStatements fuel cs = some statements) : ∀ s ∈ statements, s.Writable := by
  induction fuel generalizing cs statements with
  | zero => cases scanned
  | succ fuel ih =>
    rw [scanStatements] at scanned
    split at scanned
    · cases scanned
      nofun
    split at scanned
    · cases scanned
    rename_i first
    split at scanned
    · cases scanned
    · obtain ⟨others, later, rfl⟩ := Option.map_eq_some_iff.mp scanned
      exact List.forall_mem_cons.mpr ⟨scanStatement_writable first, ih later⟩

theorem blocks_writable {statements : List Statement} (each : ∀ s ∈ statements, s.Writable) :
    (∀ p ∈ (blocks statements).1, Writable Rising p.value) ∧
      ∀ b ∈ (blocks statements).2, ∀ p ∈ b.pairs, Writable Rising p.value := by
  induction statements with
  | nil => exact ⟨nofun, nofun⟩
  | cons s statements ih =>
    obtain ⟨first, others⟩ := List.forall_mem_cons.mp each
    obtain ⟨pairs, inner⟩ := ih others
    cases s with
    | pair p => exact ⟨List.forall_mem_cons.mpr ⟨first, pairs⟩, inner⟩
    | header h => exact ⟨nofun, List.forall_mem_cons.mpr ⟨pairs, inner⟩⟩

/-- A document that was read can be written, and the keys of its tables are in order. -/
theorem ofText?_writable {text : String} {t : Toml} (read : ofText? text = some t) :
    Writable Rising t := by
  obtain ⟨statements, scanned, made⟩ := Option.bind_eq_some_iff.mp read
  obtain ⟨pairs, inner⟩ := blocks_writable (scanStatements_writable scanned)
  simp only [ofStatements?, Option.bind_eq_bind, Option.bind_eq_some_iff, Option.pure_def,
    Option.some.injEq] at made
  obtain ⟨slots, added, slots', added', rfl⟩ := made
  have writable := (writableSlots_nil.addPairs pairs added).addBlocks inner added'
  exact writable_entriesOf fun s member => (writable s member).toToml

end ProxyConsole.Toml
