import ProxyConsole.Proofs.Toml.Value

/-!
# Tables from blocks

A table is written as the pairs of its values and as blocks for the tables in it.  Put
together again, blocks under a key make the value of that key, and the pairs and blocks
of a table make the table, sorted.  The text of a table has a line for each pair and a
paragraph for each block.
-/

set_option autoImplicit false

namespace ProxyConsole.Toml

/-! ## Blocks under a path -/

def Header.path : Header → KeyPath
  | .table path => path
  | .row path => path

def Header.under (path : List String) : Header → Header
  | .table p => .table ⟨path ++ p.parents, p.key⟩
  | .row p => .row ⟨path ++ p.parents, p.key⟩

def Block.under (path : List String) (b : Block) : Block :=
  ⟨b.header.under path, b.pairs⟩

/-- What a block does to the table that its path leads to. -/
def Block.change (b : Block) : Origin → Slots → Option Slots :=
  match b.header with
  | .table path => completeTable path.key b.pairs
  | .row path => addRow path.key b.pairs

theorem addBlock_eq (slots : Slots) (b : Block) :
    addBlock slots b = changeAt false b.change b.header.path.parents .header slots := by
  obtain ⟨header | header, pairs⟩ := b <;> rfl

theorem Block.change_under (path : List String) (b : Block) : (b.under path).change = b.change := by
  obtain ⟨header | header, pairs⟩ := b <;> rfl

theorem Block.path_under (path : List String) (b : Block) :
    (b.under path).header.path.parents = path ++ b.header.path.parents := by
  obtain ⟨header | header, pairs⟩ := b <;> rfl

theorem Block.under_under (path path' : List String) (b : Block) :
    (b.under path').under path = b.under (path ++ path') := by
  obtain ⟨header | header, pairs⟩ := b <;> simp [Block.under, Header.under]

/-- A block does not ask how the table came about. -/
theorem Block.changeAt_origin (b : Block) (keys : List String) (origin origin' : Origin)
    (slots : Slots) :
    changeAt false b.change keys origin slots = changeAt false b.change keys origin' slots := by
  cases keys with
  | cons key keys => rfl
  | nil => obtain ⟨header | header, pairs⟩ := b <;> rfl

theorem addBlocks_append (slots : Slots) (bs bs' : List Block) :
    addBlocks slots (bs ++ bs') = (addBlocks slots bs).bind fun slots => addBlocks slots bs' := by
  induction bs generalizing slots with
  | nil => rfl
  | cons b bs ih =>
    rw [List.cons_append, addBlocks, addBlocks, Option.bind_assoc]
    exact congrArg _ (funext ih)

section Last

variable {front : Slots} {key : String} (fresh : key ∉ front.map Prod.fst)

include fresh

theorem lookup_last (slot : Slot) : (front ++ [(key, slot)]).lookup key = some slot := by
  rw [List.lookup_append, lookup_eq_none fresh, List.lookup_cons_self]
  rfl

theorem putSlot_last (slot slot' : Slot) :
    putSlot key slot' (front ++ [(key, slot)]) = front ++ [(key, slot')] := by
  induction front with
  | nil => rw [List.nil_append, putSlot, if_pos rfl, List.nil_append]
  | cons s front ih =>
    rw [List.map_cons, List.mem_cons, not_or] at fresh
    rw [List.cons_append, putSlot, if_neg (Ne.symm fresh.1), ih fresh.2, List.cons_append]

theorem addBlocks_under_table (origin : Origin) (inner : Slots) (bs : List Block) :
    addBlocks (front ++ [(key, .table origin inner)]) (bs.map (Block.under [key])) =
      (addBlocks inner bs).map fun inner => front ++ [(key, .table origin inner)] := by
  induction bs generalizing inner with
  | nil => rfl
  | cons b bs ih =>
    have first : addBlock (front ++ [(key, .table origin inner)]) (b.under [key]) =
        (addBlock inner b).map fun inner => front ++ [(key, .table origin inner)] := by
      rw [addBlock_eq, b.change_under, b.path_under, List.singleton_append, changeAt,
        lookup_last fresh]
      simp only [Bool.false_and, Bool.false_eq_true, if_false, putSlot_last fresh]
      rw [b.changeAt_origin _ origin .header, ← addBlock_eq]
    rw [List.map_cons, addBlocks, first, addBlocks]
    cases addBlock inner b with
    | none => rfl
    | some inner => exact ih inner

theorem addBlocks_under_series (rows : List Slots) (row : Slots) (bs : List Block) :
    addBlocks (front ++ [(key, .series (rows ++ [row]))]) (bs.map (Block.under [key])) =
      (addBlocks row bs).map fun row => front ++ [(key, .series (rows ++ [row]))] := by
  induction bs generalizing row with
  | nil => rfl
  | cons b bs ih =>
    have first : addBlock (front ++ [(key, .series (rows ++ [row]))]) (b.under [key]) =
        (addBlock row b).map fun row => front ++ [(key, .series (rows ++ [row]))] := by
      rw [addBlock_eq, b.change_under, b.path_under, List.singleton_append, changeAt,
        lookup_last fresh]
      simp only [List.getLast?_concat, List.dropLast_concat, putSlot_last fresh]
      rw [← addBlock_eq]
    rw [List.map_cons, addBlocks, first, addBlocks]
    cases addBlock row b with
    | none => rfl
    | some row => exact ih row

theorem addBlocks_under_fresh {bs : List Block} (some : bs ≠ []) :
    addBlocks front (bs.map (Block.under [key])) =
      (addBlocks [] bs).map fun inner => front ++ [(key, .table .part inner)] := by
  obtain ⟨b, bs, rfl⟩ := List.exists_cons_of_ne_nil some
  have first : addBlock front (b.under [key]) =
      (addBlock [] b).map fun inner => front ++ [(key, .table .part inner)] := by
    rw [addBlock_eq, b.change_under, b.path_under, List.singleton_append, changeAt,
      lookup_eq_none fresh]
    simp only [Bool.false_eq_true, if_false, putSlot_fresh _ fresh]
    rw [b.changeAt_origin _ .part .header, ← addBlock_eq]
  rw [List.map_cons, addBlocks, first, addBlocks]
  cases addBlock [] b with
  | none => rfl
  | some inner => exact addBlocks_under_table fresh .part inner bs

end Last

/-! ## The blocks of a table -/

/-- The entries that have lines of their own. -/
def lineEntries (entries : List (String × Toml)) : List (String × Toml) :=
  entries.filter fun e => isInline e.2

/-- The entries that have paragraphs of their own. -/
def paragraphEntries (entries : List (String × Toml)) : List (String × Toml) :=
  entries.filter fun e => !isInline e.2

def linePairs (entries : List (String × Toml)) : List Pair :=
  pairsOf (sortedValues (lineEntries entries))

/-- Whether a table has a line with its name before its values. -/
def isHeaded (entries : List (String × Toml)) : Bool :=
  entries.isEmpty || entries.any fun e => isInline e.2

def tableBlock (key : String) (entries : List (String × Toml)) : List Block :=
  if isHeaded entries then [⟨.table ⟨[], key⟩, linePairs entries⟩] else []

mutual

/-- The blocks that a value is written as. -/
def blocksOf (key : String) : Toml → List Block
  | .table entries => tableBlock key entries ++ (innerBlocks entries).map (Block.under [key])
  | .array items => if isSeries items then rowBlocks key items else []
  | _ => []

def rowBlocks (key : String) : List Toml → List Block
  | [] => []
  | .table entries :: items =>
    ⟨.row ⟨[], key⟩, linePairs entries⟩ ::
      ((innerBlocks entries).map (Block.under [key]) ++ rowBlocks key items)
  | _ :: items => rowBlocks key items

def innerBlocks : List (String × Toml) → List Block
  | [] => []
  | (key, value) :: entries => blocksOf key value ++ innerBlocks entries

end

theorem blocksOf_isInline (key : String) {v : Toml} (inline : isInline v = true) :
    blocksOf key v = [] := by
  cases v with
  | table entries => cases inline
  | array items =>
    rw [isInline, Bool.not_eq_true'] at inline
    rw [blocksOf, inline]
    rfl
  | _ => rfl

/-- Tables under keys that hold these entries, sorted. -/
def Holds (slots : Slots) (entries : List (String × Toml)) : Prop :=
  slots.map (fun s => (s.1, s.2.toToml)) = sortedValues entries

theorem Holds.keys {slots : Slots} {entries : List (String × Toml)} (holds : Holds slots entries) :
    slots.map Prod.fst = entries.map Prod.fst := by
  have keys := congrArg (List.map Prod.fst) holds
  rwa [sortedValues, List.map_map, List.map_map] at keys

theorem Holds.append {slots slots' : Slots} {entries entries' : List (String × Toml)}
    (holds : Holds slots entries) (holds' : Holds slots' entries') :
    Holds (slots ++ slots') (entries ++ entries') := by
  rw [Holds, List.map_append, holds, holds', sortedValues, sortedValues, sortedValues,
    List.map_append]

theorem holds_values (entries : List (String × Toml)) :
    Holds ((sortedValues entries).map valueSlot) entries := by
  rw [Holds, List.map_map]
  exact List.map_id _

theorem Holds.entriesOf {slots : Slots} {entries : List (String × Toml)}
    (holds : Holds slots entries) : entriesOf slots = sortedEntries entries := by
  have folded : Toml.entriesOf slots =
      (slots.map fun s => (s.1, s.2.toToml)).foldr
        (fun e rest => insertSorted e.1 e.2 rest) [] := by
    clear holds
    induction slots with
    | nil => rfl
    | cons s slots ih => rw [Toml.entriesOf, ih, List.map_cons, List.foldr_cons]
  rw [folded, holds, sortedValues, List.foldr_map, sortedEntries_eq_foldr]

/-- The blocks of the tables in a table, put into any table without their keys. -/
def InnerAssembles (entries : List (String × Toml)) : Prop :=
  ∀ front : Slots, (front.map Prod.fst ++ (paragraphEntries entries).map Prod.fst).Nodup →
    ∃ slots, Holds slots (paragraphEntries entries) ∧
      addBlocks front (innerBlocks entries) = some (front ++ slots)

/-- The blocks of a value with paragraphs of its own, put into any table without its key. -/
structure Assembles (v : Toml) : Prop where
  marked : ∀ key, blocksOf key v ≠ []
  added : ∀ key front, key ∉ front.map Prod.fst →
    ∃ slot : Slot, slot.toToml = sorted v ∧
      addBlocks front (blocksOf key v) = some (front ++ [(key, slot)])

theorem innerAssembles {entries : List (String × Toml)}
    (each : ∀ e ∈ entries, isInline e.2 = false → Assembles e.2) : InnerAssembles entries := by
  induction entries with
  | nil => exact fun front _ => ⟨[], rfl, by rw [innerBlocks, addBlocks, List.append_nil]⟩
  | cons e entries ih =>
    obtain ⟨key, v⟩ := e
    obtain ⟨first, others⟩ := List.forall_mem_cons.mp each
    have later := ih others
    intro front distinct
    rw [innerBlocks]
    by_cases inline : isInline v = true
    · have none : paragraphEntries ((key, v) :: entries) = paragraphEntries entries :=
        List.filter_cons_of_neg (by simp [inline])
      rw [none] at distinct ⊢
      rw [blocksOf_isInline key inline]
      exact later front distinct
    · have here : paragraphEntries ((key, v) :: entries) = (key, v) :: paragraphEntries entries :=
        List.filter_cons_of_pos (by simp [inline])
      rw [here, List.map_cons] at distinct
      have fresh : key ∉ front.map Prod.fst := fun member =>
        (List.nodup_append.mp distinct).2.2 key member key List.mem_cons_self rfl
      obtain ⟨slot, same, added⟩ := (first (by simpa using inline)).added key front fresh
      obtain ⟨slots, holds, added'⟩ := later (front ++ [(key, slot)]) (by simpa using distinct)
      refine ⟨(key, slot) :: slots, ?_, ?_⟩
      · rw [here, Holds, List.map_cons, holds, same, sortedValues, sortedValues, List.map_cons]
      · rw [addBlocks_append, added, Option.bind_some, added', List.append_assoc,
          List.singleton_append]

theorem InnerAssembles.whole {entries : List (String × Toml)} (inner : InnerAssembles entries)
    (distinct : (entries.map Prod.fst).Nodup) :
    ∃ values slots, addPairs [] (linePairs entries) = some values ∧
      addBlocks values (innerBlocks entries) = some slots ∧
        entriesOf slots = sortedEntries entries := by
  have order : (lineEntries entries ++ paragraphEntries entries).Perm entries :=
    List.filter_append_perm _ entries
  have distinct' := (order.map Prod.fst).symm.nodup distinct
  have keys := (holds_values (lineEntries entries)).keys
  have distinct'' := distinct'
  rw [List.map_append] at distinct''
  obtain ⟨slots, holds, added⟩ := inner ((sortedValues (lineEntries entries)).map valueSlot)
    (by rw [keys]; exact distinct'')
  refine ⟨_, _, addPairs_sortedValues (List.nodup_append.mp distinct'').1, added, ?_⟩
  rw [((holds_values _).append holds).entriesOf, sortedEntries_congr order distinct']

theorem assembles_headed {entries : List (String × Toml)} (headed : isHeaded entries = true)
    (inner : InnerAssembles entries) (distinct : (entries.map Prod.fst).Nodup) :
    Assembles (.table entries) where
  marked key := by
    rw [blocksOf, tableBlock, if_pos headed]
    exact List.cons_ne_nil _ _
  added key front fresh := by
    obtain ⟨values, slots, pairs, blocks, same⟩ := inner.whole distinct
    refine ⟨.table .header slots, by rw [Slot.toToml, same, sorted], ?_⟩
    have first : addBlock front ⟨.table ⟨[], key⟩, linePairs entries⟩ =
        some (front ++ [(key, .table .header values)]) := by
      simp only [addBlock, changeAt, completeTable, lookup_eq_none fresh, pairs, Option.map_some,
        putSlot_fresh _ fresh]
    rw [blocksOf, tableBlock, if_pos headed, List.singleton_append, addBlocks, first,
      Option.bind_some, addBlocks_under_table fresh, blocks, Option.map_some]

theorem assembles_headless {entries : List (String × Toml)} (headless : isHeaded entries = false)
    (inner : InnerAssembles entries) (each : ∀ e ∈ entries, isInline e.2 = false → Assembles e.2)
    (distinct : (entries.map Prod.fst).Nodup) : Assembles (.table entries) := by
  have parts := headless
  rw [isHeaded, Bool.or_eq_false_iff, List.isEmpty_eq_false_iff, List.any_eq_false] at parts
  obtain ⟨someEntry, noLine⟩ := parts
  have onlyInner : ∀ key, blocksOf key (.table entries) =
    (innerBlocks entries).map (Block.under [key]) := by
    intro key
    rw [blocksOf, tableBlock, headless]
    rfl
  have someBlock : innerBlocks entries ≠ [] := by
    obtain ⟨e, others, rfl⟩ := List.exists_cons_of_ne_nil someEntry
    have paragraphs := Bool.eq_false_iff.mpr (noLine e List.mem_cons_self)
    exact List.append_ne_nil_of_left_ne_nil ((each e List.mem_cons_self paragraphs).marked e.1) _
  constructor
  · intro key
    rw [onlyInner]
    exact mt List.map_eq_nil_iff.mp someBlock
  · intro key front fresh
    obtain ⟨values, slots, pairs, blocks, same⟩ := inner.whole distinct
    have noPairs : linePairs entries = [] := by
      rw [linePairs, lineEntries, List.filter_eq_nil_iff.mpr noLine]
      rfl
    rw [noPairs] at pairs
    cases pairs
    refine ⟨.table .part slots, by rw [Slot.toToml, same, sorted], ?_⟩
    rw [onlyInner, addBlocks_under_fresh fresh someBlock, blocks, Option.map_some]

theorem assembles_table {entries : List (String × Toml)} (inner : InnerAssembles entries)
    (each : ∀ e ∈ entries, isInline e.2 = false → Assembles e.2)
    (distinct : (entries.map Prod.fst).Nodup) : Assembles (.table entries) := by
  cases headed : isHeaded entries with
  | true => exact assembles_headed headed inner distinct
  | false => exact assembles_headless headed inner each distinct

/-- A table whose parts can be put together, as one of a series. -/
def RowAssembles (item : Toml) : Prop :=
  ∃ entries, item = .table entries ∧ InnerAssembles entries ∧ (entries.map Prod.fst).Nodup

theorem addBlocks_rowBlocks {key : String} {front : Slots} (fresh : key ∉ front.map Prod.fst)
    {items : List Toml} (each : ∀ item ∈ items, RowAssembles item) (rows : List Slots) :
    ∃ rows', rowsOf rows' = sortedItems items ∧
      addBlocks (front ++ [(key, .series rows)]) (rowBlocks key items) =
        some (front ++ [(key, .series (rows ++ rows'))]) := by
  induction items generalizing rows with
  | nil => exact ⟨[], rfl, by rw [rowBlocks, addBlocks, List.append_nil]⟩
  | cons item items ih =>
    obtain ⟨⟨entries, rfl, inner, distinct⟩, others⟩ := List.forall_mem_cons.mp each
    obtain ⟨values, row, pairs, blocks, same⟩ := inner.whole distinct
    obtain ⟨rows', same', later⟩ := ih others (rows ++ [row])
    have first : addBlock (front ++ [(key, .series rows)]) ⟨.row ⟨[], key⟩, linePairs entries⟩ =
        some (front ++ [(key, .series (rows ++ [values]))]) := by
      simp only [addBlock, changeAt, addRow, lookup_last fresh, pairs, Option.map_some,
        putSlot_last fresh]
    refine ⟨row :: rows', by rw [rowsOf, same, same', sortedItems, sorted], ?_⟩
    rw [rowBlocks, addBlocks, first, Option.bind_some, addBlocks_append,
      addBlocks_under_series fresh, blocks, Option.map_some, Option.bind_some, later,
      List.append_assoc]
    rfl

theorem assembles_series {item : Toml} {items : List Toml}
    (each : ∀ i ∈ item :: items, RowAssembles i) (series : isSeries (item :: items) = true) :
    Assembles (.array (item :: items)) := by
  obtain ⟨⟨entries, rfl, inner, distinct⟩, others⟩ := List.forall_mem_cons.mp each
  constructor
  · intro key
    rw [blocksOf, if_pos series, rowBlocks]
    exact List.cons_ne_nil _ _
  · intro key front fresh
    obtain ⟨values, row, pairs, blocks, same⟩ := inner.whole distinct
    obtain ⟨rows, same', later⟩ := addBlocks_rowBlocks fresh others [row]
    have first : addBlock front ⟨.row ⟨[], key⟩, linePairs entries⟩ =
        some (front ++ [(key, .series ([] ++ [values]))]) := by
      simp only [addBlock, changeAt, addRow, lookup_eq_none fresh, pairs, Option.map_some,
        putSlot_fresh _ fresh, List.nil_append]
    refine ⟨.series ([row] ++ rows), ?_, ?_⟩
    · rw [Slot.toToml, List.singleton_append, rowsOf, same, same', sorted, sortedItems, sorted]
    · rw [blocksOf, if_pos series, rowBlocks, addBlocks, first, Option.bind_some, addBlocks_append,
        addBlocks_under_series fresh, blocks, Option.map_some, Option.bind_some, List.nil_append,
        later]

theorem Writable.assembles {v : Toml} (writable : Writable List.Nodup v) :
    (isInline v = false → Assembles v) ∧ (isTable v = true → RowAssembles v) := by
  induction writable with
  | @table entries keys _ ih =>
    have each := fun e member => (ih e member).1
    have inner := innerAssembles each
    exact ⟨fun _ => assembles_table inner each keys, fun _ => ⟨entries, rfl, inner, keys⟩⟩
  | @array items _ ih =>
    refine ⟨fun paragraphs => ?_, fun table => (by cases table)⟩
    rw [isInline, Bool.not_eq_false'] at paragraphs
    have tables := paragraphs
    rw [isSeries, Bool.and_eq_true, Bool.not_eq_true', List.isEmpty_eq_false_iff,
      List.all_eq_true] at tables
    obtain ⟨item, items, rfl⟩ := List.exists_cons_of_ne_nil tables.1
    exact assembles_series (fun i member => (ih i member).2 (tables.2 i member)) paragraphs
  | _ => exact ⟨fun paragraphs => (by cases paragraphs), fun table => (by cases table)⟩

/-! ## Whole documents -/

def Block.statements (b : Block) : List Statement :=
  .header b.header :: b.pairs.map .pair

theorem blocks_pairs (pairs : List Pair) (statements : List Statement) :
    blocks (pairs.map .pair ++ statements) =
      (pairs ++ (blocks statements).1, (blocks statements).2) := by
  induction pairs with
  | nil => rfl
  | cons p pairs ih => rw [List.map_cons, List.cons_append, blocks, ih]; rfl

theorem blocks_statements (pairs : List Pair) (bs : List Block) :
    blocks (pairs.map .pair ++ bs.flatMap Block.statements) = (pairs, bs) := by
  induction bs generalizing pairs with
  | nil => rw [blocks_pairs, List.flatMap_nil, blocks, List.append_nil]
  | cons b bs ih =>
    rw [blocks_pairs, List.flatMap_cons, Block.statements, List.cons_append, blocks, ih,
      List.append_nil]

/-- The statements that a table is written as. -/
def statementsOf (entries : List (String × Toml)) : List Statement :=
  (linePairs entries).map .pair ++ (innerBlocks entries).flatMap Block.statements

/-- The statements of a table make the table, sorted. -/
theorem Writable.ofStatements? {entries : List (String × Toml)}
    (writable : Writable List.Nodup (.table entries)) :
    ofStatements? (statementsOf entries) = some (Toml.sorted (.table entries)) := by
  obtain ⟨_, ⟨⟩, inner, distinct⟩ := writable.assembles.2 rfl
  obtain ⟨values, slots, pairs, blocks, same⟩ := inner.whole distinct
  rw [Toml.ofStatements?, statementsOf, blocks_statements]
  simp only [Option.bind_eq_bind, pairs, blocks, Option.bind_some, Option.pure_def, same,
    Toml.sorted]

section Texts

variable {reads : List Char → Statement → Prop} {entries : List (String × Toml)}

theorem lays_valueLines
    (each : ∀ e ∈ entries, isInline e.2 = true →
      reads (pairText e.1 (valueText e.2)) (.pair ⟨⟨[], e.1⟩, sorted e.2⟩)) :
    Lays reads (valueLines entries) ((linePairs entries).map .pair) := by
  induction entries with
  | nil => exact lays_nil
  | cons e entries ih =>
    obtain ⟨first, others⟩ := List.forall_mem_cons.mp each
    rw [valueLines, linePairs, ← lineEntries]
    by_cases inline : isInline e.2 = true
    · have here : lineEntries (e :: entries) = e :: lineEntries entries :=
        List.filter_cons_of_pos inline
      rw [here]
      exact (lays_line (opensLine_pair e.1 _) (first inline)).append (ih others)
    · have none : lineEntries (e :: entries) = lineEntries entries := List.filter_cons_of_neg inline
      rw [none]
      exact ih others

theorem lays_tableHeader {path : List String} {statement : Statement}
    (line : reads ('[' :: (spellPath path ++ [']'])) statement) :
    Lays reads (tableHeader path) [statement] := by
  have shape : tableHeader path = '[' :: (spellPath path ++ [']']) ++ ['\n'] := by
    simp [tableHeader]
  rw [shape]
  exact lays_line ⟨'[', _, rfl, .inr rfl⟩ line

theorem lays_rowHeader {path : List String} {statement : Statement}
    (line : reads ('[' :: '[' :: (spellPath path ++ [']', ']'])) statement) :
    Lays reads (rowHeader path) [statement] := by
  have shape : rowHeader path = '[' :: '[' :: (spellPath path ++ [']', ']']) ++ ['\n'] := by
    simp [rowHeader]
  rw [shape]
  exact lays_line ⟨'[', _, rfl, .inr rfl⟩ line

/-- The text of a table has its lines and then, paragraph by paragraph, its blocks. -/
theorem laid_documentText (lines : Lays reads (valueLines entries) ((linePairs entries).map .pair))
    (inner : List.Forall₂ (Lays reads) (innerParagraphs [] entries)
      ((innerBlocks entries).map Block.statements)) :
    ∃ text, documentText entries = String.ofList text ∧ Laid reads text (statementsOf entries) := by
  refine ⟨_, rfl, Lays.laid ?_⟩
  rw [statementsOf, List.flatMap_def]
  generalize valueLines entries = top at lines
  by_cases empty : top.isEmpty = true
  · obtain rfl := List.isEmpty_iff.mp empty
    exact lines.append (lays_intercalate inner)
  · rw [if_neg empty]
    exact lays_intercalate (.cons lines inner)

end Texts

end ProxyConsole.Toml
