import ProxyConsole.Proofs.Toml.Assembly

/-!
# Documents that are read again

The text of a table is a text of lines, paragraph by paragraph the blocks of the table.
So a table that can be written is read again, if its document can be read at all, as the
table itself up to its outline.
-/

set_option autoImplicit false

namespace ProxyConsole.Toml

/-! ## Lines -/

/-- A line that is scanned as a statement up to its outline, if it is scanned at all. -/
def LineReadsAs (line : List Char) (statement : Statement) : Prop :=
  ∀ rest s left, scanStatement (line ++ '\n' :: rest) = some (s, left) →
    left = '\n' :: rest ∧ s.outline = statement.outline

theorem ReadsAs.line {text : List Char} {u : Toml} (reads : ReadsAs text u) (key : String) :
    LineReadsAs (pairText key text) (.pair ⟨⟨[], key⟩, u⟩) := by
  intro rest s left scanned
  obtain ⟨first, more, shape, opens⟩ := spellKey_head key
  obtain ⟨start, others, shape', opens'⟩ := reads.head
  have whole : pairText key text ++ '\n' :: rest =
      spellKey key ++ ' ' :: '=' :: ' ' :: (text ++ '\n' :: rest) := by
    simp [pairText]
  have path : scanPath ([] ++ (spellKey key ++ ' ' :: '=' :: ' ' :: (text ++ '\n' :: rest))) = _ :=
    scanPath_key key _ (.inl rfl)
  have blanks : skipBlanks (' ' :: (text ++ '\n' :: rest)) = text ++ '\n' :: rest := by
    rw [shape']
    exact skipBlanks_value opens'
  rw [whole, scanStatement] at scanned
  · obtain ⟨⟨p, left'⟩, pair, same⟩ := Option.map_eq_some_iff.mp scanned
    cases same
    rw [List.nil_append] at path
    rw [scanPair, path] at pair
    simp only [blanks] at pair
    obtain ⟨⟨v, left'⟩, value, same⟩ := Option.map_eq_some_iff.mp pair
    cases same
    obtain ⟨rfl, same⟩ := reads.scan (endsMoment_cons (.inl rfl) rest) value
    exact ⟨rfl, by rw [Statement.outline, Statement.outline, Pair.outline, Pair.outline, same]⟩
  · intro cs same
    rw [shape, List.cons_append] at same
    exact ne_of_opens opens (by decide) (List.cons.inj same).1

theorem scanPath_bracket (parents : List String) (key : String) (more : List Char) :
    scanPath (spellPath (parents ++ [key]) ++ ']' :: more) =
      if parents.length < pathLimit then some (⟨parents, key⟩, ']' :: more) else none := by
  have stop : skipBlanks (']' :: more) = ']' :: more := rfl
  rw [scanPath_eq parents key (']' :: more) (by intro c member; cases member; decide)
    (by intro c member; cases member; decide), stop]

theorem lineReadsAs_table (parents : List String) (key : String) :
    LineReadsAs ('[' :: (spellPath (parents ++ [key]) ++ [']']))
      (.header (.table ⟨parents, key⟩)) := by
  intro rest s left scanned
  have whole : '[' :: (spellPath (parents ++ [key]) ++ [']']) ++ '\n' :: rest =
      '[' :: (spellPath (parents ++ [key]) ++ ']' :: '\n' :: rest) := by simp
  rw [whole, scanStatement] at scanned
  obtain ⟨⟨h, left'⟩, header, same⟩ := Option.map_eq_some_iff.mp scanned
  cases same
  unfold scanHeader at header
  split at header
  · rename_i same
    obtain ⟨root, path, shape⟩ := List.exists_cons_of_ne_nil
      (List.append_ne_nil_of_right_ne_nil parents (List.cons_ne_nil key []))
    obtain ⟨first, more, shape', opens⟩ := spellPath_head root path
    rw [shape, shape', List.cons_append] at same
    exact absurd (List.cons.inj same).1 (ne_of_opens opens (by decide))
  · rw [scanPath_bracket] at header
    split at header
    · rename_i scanned
      split at scanned
      · cases scanned
        cases header
        exact ⟨rfl, rfl⟩
      · cases scanned
    · cases header

theorem lineReadsAs_row (parents : List String) (key : String) :
    LineReadsAs ('[' :: '[' :: (spellPath (parents ++ [key]) ++ [']', ']']))
      (.header (.row ⟨parents, key⟩)) := by
  intro rest s left scanned
  have whole : '[' :: '[' :: (spellPath (parents ++ [key]) ++ [']', ']']) ++ '\n' :: rest =
      '[' :: '[' :: (spellPath (parents ++ [key]) ++ ']' :: ']' :: '\n' :: rest) := by simp
  rw [whole, scanStatement] at scanned
  obtain ⟨⟨h, left'⟩, header, same⟩ := Option.map_eq_some_iff.mp scanned
  cases same
  rw [scanHeader, scanPath_bracket] at header
  split at header
  · rename_i scanned
    split at scanned
    · cases scanned
      cases header
      exact ⟨rfl, rfl⟩
    · cases scanned
  · cases header

/-! ## Texts of lines -/

section Texts

variable {text : List Char} {statements : List Statement}

theorem Laid.scan_outline (laid : Laid LineReadsAs text statements) {fuel : Nat}
    {scanned : List Statement} (read : scanStatements fuel text = some scanned) :
    scanned.map Statement.outline = statements.map Statement.outline := by
  induction fuel generalizing text statements scanned with
  | zero => cases read
  | succ fuel ih =>
    have skipped := laid.skipFiller
    rw [scanStatements] at read
    generalize Toml.skipFiller text = reached at skipped read
    cases skipped with
    | done none =>
      cases read
      rw [none]
    | @line line text' statement more next opens first later shorter =>
      have same := first text'
      obtain ⟨c, others, shape, _⟩ := opens.shown
      rw [shape, List.cons_append] at read same
      dsimp only at read
      split at read
      · cases read
      rename_i s left first'
      obtain ⟨rfl, outline⟩ := same s left first'
      obtain ⟨scanned', rest, rfl⟩ := Option.map_eq_some_iff.mp read
      rw [next, List.map_cons, List.map_cons, outline, ih later rest]

theorem Laid.ofText?_outline (laid : Laid LineReadsAs text statements) {t : Toml}
    (read : Toml.ofText? (String.ofList text) = some t) :
    some t.outline = (ofStatements? statements).map outline := by
  rw [Toml.ofText?, String.toList_ofList, laid.withoutMark] at read
  obtain ⟨scanned, scan, made⟩ := Option.bind_eq_some_iff.mp read
  rw [← ofStatements?_outline, ← laid.scan_outline scan, ofStatements?_outline, made,
    Option.map_some]

end Texts

/-! ## Paragraphs -/

/-- A text of lines for a block. -/
abbrev Paragraph (text : List Char) (b : Block) : Prop :=
  Lays LineReadsAs text b.statements

/-- The paragraphs of a value are its blocks, under any path. -/
def Paragraphed (v : Toml) : Prop :=
  ∀ parents key, List.Forall₂ Paragraph (paragraphs (parents ++ [key]) v)
    ((blocksOf key v).map (Block.under parents))

def InnerParagraphed (entries : List (String × Toml)) : Prop :=
  ∀ path, List.Forall₂ Paragraph (innerParagraphs path entries)
    ((innerBlocks entries).map (Block.under path))

theorem innerParagraphed {entries : List (String × Toml)} (each : ∀ e ∈ entries, Paragraphed e.2) :
    InnerParagraphed entries := by
  intro path
  induction entries with
  | nil => exact .nil
  | cons e entries ih =>
    obtain ⟨first, others⟩ := List.forall_mem_cons.mp each
    rw [innerParagraphs, innerBlocks, List.map_append]
    exact List.rel_append (first path e.1) (ih others)

theorem tableHeader_paragraph {parents : List String} {key : String}
    {entries : List (String × Toml)}
    (lines : Lays LineReadsAs (valueLines entries) ((linePairs entries).map .pair)) :
    Paragraph (tableHeader (parents ++ [key]) ++ valueLines entries)
      (Block.under parents ⟨.table ⟨[], key⟩, linePairs entries⟩) := by
  simpa [Paragraph, Block.statements, Block.under, Header.under] using
    (lays_tableHeader (lineReadsAs_table parents key)).append lines

theorem rowHeader_paragraph {parents : List String} {key : String} {entries : List (String × Toml)}
    (lines : Lays LineReadsAs (valueLines entries) ((linePairs entries).map .pair)) :
    Paragraph (rowHeader (parents ++ [key]) ++ valueLines entries)
      (Block.under parents ⟨.row ⟨[], key⟩, linePairs entries⟩) := by
  simpa [Paragraph, Block.statements, Block.under, Header.under] using
    (lays_rowHeader (lineReadsAs_row parents key)).append lines

theorem InnerParagraphed.under {entries : List (String × Toml)} (inner : InnerParagraphed entries)
    (parents : List String) (key : String) :
    List.Forall₂ Paragraph (innerParagraphs (parents ++ [key]) entries)
      (((innerBlocks entries).map (Block.under [key])).map (Block.under parents)) := by
  have same : Block.under parents ∘ Block.under [key] = Block.under (parents ++ [key]) :=
    funext (Block.under_under parents [key])
  rw [List.map_map, same]
  exact inner (parents ++ [key])

theorem paragraphed_table {entries : List (String × Toml)}
    (lines : Lays LineReadsAs (valueLines entries) ((linePairs entries).map .pair))
    (inner : InnerParagraphed entries) : Paragraphed (.table entries) := by
  intro parents key
  rw [paragraphs, blocksOf, List.map_append]
  refine List.rel_append ?_ (inner.under parents key)
  rw [tableParagraph, tableBlock, isHeaded]
  split
  · exact .cons (tableHeader_paragraph lines) .nil
  · exact .nil

/-- A table with what its lines and its paragraphs are. -/
def RowParagraphed (item : Toml) : Prop :=
  ∃ entries, item = .table entries ∧
    Lays LineReadsAs (valueLines entries) ((linePairs entries).map .pair) ∧ InnerParagraphed entries

theorem rowParagraphs_blocks {items : List Toml} (each : ∀ item ∈ items, RowParagraphed item)
    (parents : List String) (key : String) :
    List.Forall₂ Paragraph (rowParagraphs (parents ++ [key]) items)
      ((rowBlocks key items).map (Block.under parents)) := by
  induction items with
  | nil => exact .nil
  | cons item items ih =>
    obtain ⟨⟨entries, rfl, lines, inner⟩, others⟩ := List.forall_mem_cons.mp each
    rw [rowParagraphs, rowBlocks, List.map_cons, List.map_append]
    exact .cons (rowHeader_paragraph lines) (List.rel_append (inner.under parents key) (ih others))

theorem Writable.paragraphed {v : Toml} (writable : Writable List.Nodup v) :
    Paragraphed v ∧ (isTable v = true → RowParagraphed v) := by
  induction writable with
  | @table entries _ each ih =>
    have lines := lays_valueLines fun e member _ => (each e member).readsAs.line e.1
    have inner := innerParagraphed fun e member => (ih e member).1
    exact ⟨paragraphed_table lines inner, fun _ => ⟨entries, rfl, lines, inner⟩⟩
  | @array items _ ih =>
    refine ⟨fun parents key => ?_, fun table => (by cases table)⟩
    rw [paragraphs, blocksOf]
    split
    · rename_i series
      rw [isSeries, Bool.and_eq_true, List.all_eq_true] at series
      exact rowParagraphs_blocks (fun item member => (ih item member).2 (series.2 item member))
        parents key
    · exact .nil
  | _ => exact ⟨fun _ _ => .nil, fun table => (by cases table)⟩

/-! ## Documents -/

/-- What is written for a table is read, if it can be read at all, as the table sorted, up
to its outline. -/
theorem Writable.outline_of_read {entries : List (String × Toml)}
    (writable : Writable List.Nodup (.table entries)) {t : Toml}
    (read : ofText? (documentText entries) = some t) :
    t.outline = (Toml.sorted (.table entries)).outline := by
  obtain ⟨_, ⟨⟩, lines, inner⟩ := writable.paragraphed.2 rfl
  have inner := inner []
  have same : (innerBlocks entries).map (Block.under []) = innerBlocks entries := by
    refine (List.map_congr_left fun b _ => ?_).trans (List.map_id _)
    obtain ⟨header | header, pairs⟩ := b <;> rfl
  rw [same] at inner
  obtain ⟨text, written, laid⟩ := laid_documentText lines (List.forall₂_map_right_iff.mpr inner)
  rw [written] at read
  have outline := laid.ofText?_outline read
  rw [writable.ofStatements?, Option.map_some] at outline
  exact Option.some.inj outline

theorem Writable.outline_of_reread {entries : List (String × Toml)}
    (writable : Writable Rising (.table entries)) {t : Toml}
    (read : ofText? (documentText (Toml.rankedEntries entries)) = some t) :
    t.outline = (Toml.table entries).outline := by
  obtain ⟨ranked, same⟩ := (writable.mono fun _ => Rising.nodup).rankedEntries
  rw [ranked.outline_of_read read, same, writable.sorted]

end ProxyConsole.Toml
