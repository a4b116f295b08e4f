import ProxyConsole.Toml.Document

/-!
# Outlines

The outline of a value is the value up to its moments and floating point numbers, which
are the same in every outline.  Tables are put together in the same way whatever the
values in them are, so the outline of a document is made of the outlines of its
statements.
-/

set_option autoImplicit false

namespace ProxyConsole

theorem insertSorted_map {α β : Type} (f : String → α → β) (key : String) (value : α)
    (entries : List (String × α)) :
    insertSorted key (f key value) (entries.map fun e => (e.1, f e.1 e.2)) =
      (insertSorted key value entries).map fun e => (e.1, f e.1 e.2) := by
  induction entries with
  | nil => rfl
  | cons e entries ih =>
    rw [List.map_cons, insertSorted, insertSorted, ih]
    split
    · rfl
    · split <;> rfl

theorem lookup_map {α β : Type} (f : String → α → β) (key : String) (entries : List (String × α)) :
    (entries.map fun e => (e.1, f e.1 e.2)).lookup key = (entries.lookup key).map (f key) := by
  induction entries with
  | nil => rfl
  | cons e entries ih =>
    rw [List.map_cons, List.lookup_cons, List.lookup_cons, ih]
    split
    · rename_i same
      rw [beq_iff_eq.mp same]
      rfl
    · rfl

namespace Toml

mutual

def outline : Toml → Toml
  | .string s => .string s
  | .integer i => .integer i
  | .float _ => .float 0
  | .bool b => .bool b
  | .moment _ => .moment (.date ⟨0, 0, 0⟩)
  | .array items => .array (outlineItems items)
  | .table entries => .table (outlineEntries entries)

def outlineItems : List Toml → List Toml
  | [] => []
  | item :: items => item.outline :: outlineItems items

def outlineEntries : List (String × Toml) → List (String × Toml)
  | [] => []
  | (key, v) :: entries => (key, v.outline) :: outlineEntries entries

end

theorem outlineItems_eq_map (items : List Toml) : outlineItems items = items.map outline := by
  induction items with
  | nil => rfl
  | cons item items ih => rw [outlineItems, ih, List.map_cons]

theorem outlineEntries_eq_map (entries : List (String × Toml)) :
    outlineEntries entries = entries.map fun e => (e.1, outline e.2) := by
  induction entries with
  | nil => rfl
  | cons e entries ih => rw [outlineEntries, ih, List.map_cons]

mutual

def Slot.outline : Slot → Slot
  | .value v => .value v.outline
  | .table origin slots => .table origin (outlineSlots slots)
  | .series rows => .series (outlineRows rows)

def outlineSlots : List (String × Slot) → List (String × Slot)
  | [] => []
  | (key, slot) :: slots => (key, slot.outline) :: outlineSlots slots

def outlineRows : List (List (String × Slot)) → List (List (String × Slot))
  | [] => []
  | row :: rows => outlineSlots row :: outlineRows rows

end

theorem outlineSlots_eq_map (slots : Slots) :
    outlineSlots slots = slots.map fun s => (s.1, s.2.outline) := by
  induction slots with
  | nil => rfl
  | cons s slots ih => rw [outlineSlots, ih, List.map_cons]

theorem outlineRows_eq_map (rows : List Slots) : outlineRows rows = rows.map outlineSlots := by
  induction rows with
  | nil => rfl
  | cons row rows ih => rw [outlineRows, ih, List.map_cons]

theorem rowsOf_outline {rows : List Slots}
    (each : ∀ row ∈ rows, entriesOf (outlineSlots row) = outlineEntries (entriesOf row)) :
    rowsOf (outlineRows rows) = outlineItems (rowsOf rows) := by
  induction rows with
  | nil => rfl
  | cons row rows ih =>
    rw [outlineRows, rowsOf, rowsOf, ih fun r member => each r (List.mem_cons_of_mem _ member),
      each row List.mem_cons_self, outlineItems, outline]

mutual

theorem Slot.toToml_outline : (slot : Slot) → slot.outline.toToml = slot.toToml.outline
  | .value _ => rfl
  | .table _ slots => congrArg Toml.table (entriesOf_outline slots)
  | .series rows => congrArg Toml.array (rowsOf_outline fun row _ => entriesOf_outline row)

theorem entriesOf_outline :
    (slots : List (String × Slot)) →
    entriesOf (outlineSlots slots) = outlineEntries (entriesOf slots)
  | [] => rfl
  | (key, slot) :: slots => by
    rw [outlineSlots, entriesOf, entriesOf, entriesOf_outline slots, slot.toToml_outline,
      outlineEntries_eq_map, outlineEntries_eq_map, insertSorted_map fun _ => outline]

end

/-! ## Changing tables -/

theorem putSlot_outline (key : String) (slot : Slot) (slots : Slots) :
    putSlot key slot.outline (outlineSlots slots) = outlineSlots (putSlot key slot slots) := by
  induction slots with
  | nil => rfl
  | cons s slots ih =>
    rw [outlineSlots, putSlot, putSlot, ih]
    split <;> rfl

theorem lookup_outlineSlots (key : String) (slots : Slots) :
    (outlineSlots slots).lookup key = (slots.lookup key).map Slot.outline := by
  rw [outlineSlots_eq_map, lookup_map fun _ => Slot.outline]

/-- A change of a table that does the same to outlines as another one does to tables. -/
def Outlines (change change' : Origin → Slots → Option Slots) : Prop :=
  ∀ origin slots, change' origin (outlineSlots slots) = (change origin slots).map outlineSlots

theorem Outlines.changeAt {change change' : Origin → Slots → Option Slots}
    (outlines : Outlines change change') (joined : Bool) (keys : List String) :
    Outlines (Toml.changeAt joined change keys) (Toml.changeAt joined change' keys) := by
  induction keys with
  | nil => exact outlines
  | cons key keys ih =>
    intro origin slots
    have none := ih (if joined then .joined else .part) []
    rw [Toml.changeAt, Toml.changeAt, lookup_outlineSlots]
    cases slots.lookup key with
    | none =>
      rw [outlineSlots] at none
      simp only [Option.map_none, none, Option.map_map]
      congr 1
      funext inner
      exact putSlot_outline key (.table _ inner) slots
    | some slot =>
      cases slot with
      | value v => rfl
      | table origin' inner =>
        simp only [Option.map_some, Slot.outline]
        split
        · rfl
        · rw [ih, Option.map_map, Option.map_map]
          congr 1
          funext inner
          exact putSlot_outline key (.table _ inner) slots
      | series rows =>
        simp only [Option.map_some, Slot.outline, outlineRows_eq_map, List.getLast?_map]
        cases rows.getLast? with
        | none => rfl
        | some row =>
          have last := ih .header row
          simp only [Option.map_some, last, Option.map_map]
          congr 1
          funext inner
          have put := putSlot_outline key (.series (rows.dropLast ++ [inner])) slots
          rw [Slot.outline, outlineRows_eq_map, List.map_append, List.map_dropLast] at put
          exact put

def Pair.outline (p : Pair) : Pair :=
  ⟨p.path, p.value.outline⟩

theorem outlines_setKey (isDirect : Bool) (key : String) (v : Toml) :
    Outlines (setKey isDirect key v) (setKey isDirect key v.outline) := by
  intro origin slots
  rw [setKey, setKey, lookup_outlineSlots, Option.isSome_map]
  split
  · rfl
  · split
    · rfl
    · simp only [Option.map_some, outlineSlots_eq_map, List.map_append]
      rfl

theorem addPair_outline (slots : Slots) (p : Pair) :
    addPair (outlineSlots slots) p.outline = (addPair slots p).map outlineSlots :=
  (outlines_setKey _ _ _).changeAt true p.path.parents .header slots

theorem addPairs_outline (slots : Slots) (pairs : List Pair) :
    addPairs (outlineSlots slots) (pairs.map Pair.outline) =
      (addPairs slots pairs).map outlineSlots := by
  induction pairs generalizing slots with
  | nil => rfl
  | cons p pairs ih =>
    rw [List.map_cons, addPairs, addPairs, addPair_outline]
    cases addPair slots p with
    | none => rfl
    | some slots => exact ih slots

/-- The outline of a table within braces is made of the outlines of its pairs. -/
theorem tableOfPairs?_outline (pairs : List Pair) :
    tableOfPairs? (pairs.map Pair.outline) = (tableOfPairs? pairs).map outline := by
  have added := addPairs_outline [] pairs
  rw [outlineSlots] at added
  simp only [tableOfPairs?, added, Option.map_map]
  congr 1
  funext slots
  exact congrArg Toml.table (entriesOf_outline slots)

theorem outlines_completeTable (key : String) (pairs : List Pair) :
    Outlines (completeTable key pairs) (completeTable key (pairs.map Pair.outline)) := by
  intro origin slots
  have added := addPairs_outline [] pairs
  rw [outlineSlots] at added
  rw [completeTable, completeTable, lookup_outlineSlots]
  have put : ∀ inner, putSlot key (.table .header (outlineSlots inner)) (outlineSlots slots) =
      outlineSlots (putSlot key (.table .header inner) slots) :=
    fun inner => putSlot_outline key (.table .header inner) slots
  cases slots.lookup key with
  | none => simp [added, Function.comp_def, put]
  | some slot =>
    cases slot with
    | value v => rfl
    | series rows => rfl
    | table origin' inner =>
      cases origin' with
      | part => simp [Slot.outline, addPairs_outline, Function.comp_def, put]
      | header => rfl
      | joined => rfl

theorem outlines_addRow (key : String) (pairs : List Pair) :
    Outlines (addRow key pairs) (addRow key (pairs.map Pair.outline)) := by
  intro origin slots
  have added := addPairs_outline [] pairs
  rw [outlineSlots] at added
  have put : ∀ rows, putSlot key (.series (rows.map outlineSlots)) (outlineSlots slots) =
      outlineSlots (putSlot key (.series rows) slots) := by
    intro rows
    rw [← putSlot_outline, Slot.outline, outlineRows_eq_map]
  rw [addRow, addRow, lookup_outlineSlots]
  cases slots.lookup key with
  | none => simp [added, Function.comp_def, ← put]
  | some slot =>
    cases slot with
    | value v => rfl
    | table origin' inner => rfl
    | series rows => simp [Slot.outline, outlineRows_eq_map, added, Function.comp_def, ← put]

def Block.outline (b : Block) : Block :=
  ⟨b.header, b.pairs.map Pair.outline⟩

theorem addBlock_outline (slots : Slots) (b : Block) :
    addBlock (outlineSlots slots) b.outline = (addBlock slots b).map outlineSlots := by
  obtain ⟨header, pairs⟩ := b
  cases header with
  | table path => exact (outlines_completeTable _ pairs).changeAt false path.parents .header slots
  | row path => exact (outlines_addRow _ pairs).changeAt false path.parents .header slots

theorem addBlocks_outline (slots : Slots) (bs : List Block) :
    addBlocks (outlineSlots slots) (bs.map Block.outline) =
      (addBlocks slots bs).map outlineSlots := by
  induction bs generalizing slots with
  | nil => rfl
  | cons b bs ih =>
    rw [List.map_cons, addBlocks, addBlocks, addBlock_outline]
    cases addBlock slots b with
    | none => rfl
    | some slots => exact ih slots

/-! ## Documents -/

def Statement.outline : Statement → Statement
  | .pair p => .pair p.outline
  | .header h => .header h

theorem blocks_outline (statements : List Statement) :
    blocks (statements.map Statement.outline) =
      ((blocks statements).1.map Pair.outline, (blocks statements).2.map Block.outline) := by
  induction statements with
  | nil => rfl
  | cons statement statements ih =>
    cases statement with
    | pair p =>
      rw [List.map_cons, Statement.outline, blocks, blocks, ih]
      rfl
    | header h =>
      rw [List.map_cons, Statement.outline, blocks, blocks, ih]
      rfl

theorem ofStatements?_outline (statements : List Statement) :
    ofStatements? (statements.map Statement.outline) = (ofStatements? statements).map outline := by
  have added := addPairs_outline [] (blocks statements).1
  rw [outlineSlots] at added
  simp only [ofStatements?, blocks_outline, added, Option.bind_eq_bind, Option.bind_map,
    Option.map_bind, Option.pure_def]
  congr 1
  funext slots
  simp only [Function.comp_def, addBlocks_outline, Option.bind_map, Option.map_bind,
    Option.map_some]
  congr 1
  funext slots
  simp [entriesOf_outline, outline]

end Toml

end ProxyConsole
