import ProxyConsole.Proofs.Toml.Assembly

/-!
# Written documents

A document of scalars and of tables of scalars is read back as it was written, sorted by
key.  Its text is a list of pairs and then, for each table, a header and the pairs of
the table.
-/

set_option autoImplicit false

namespace ProxyConsole.Toml

/-- A table with its key, as an entry. -/
def sectionEntry (s : String × List (String × Toml)) : String × Toml :=
  (s.1, .table s.2)

def sectionBlock (s : String × List (String × Toml)) : Block :=
  ⟨.table ⟨[], s.1⟩, pairsOf s.2⟩

/-! ## Scalars -/

theorem Scalar.isInline {v : Toml} (scalar : Scalar v) : isInline v = true := by
  cases scalar <;> rfl

theorem Scalar.sorted {v : Toml} (scalar : Scalar v) : sorted v = v := by
  cases scalar <;> rfl

theorem Scalar.writable {v : Toml} (scalar : Scalar v) {order : List String → Prop} :
    Writable order v := by
  cases scalar with
  | string s => exact .string s
  | integer i fits => exact .integer fits
  | bool b => exact .bool b

theorem paragraphs_isInline (path : List String) {v : Toml} (inline : isInline v = true) :
    paragraphs path v = [] := by
  cases v with
  | table entries => cases inline
  | array items =>
    rw [isInline, Bool.not_eq_true'] at inline
    rw [paragraphs, inline]
    rfl
  | _ => rfl

section Pages

variable {scalars : List (String × Toml)} {sections : List (String × List (String × Toml))}

theorem lineEntries_paged (plain : ∀ e ∈ scalars, Scalar e.2) :
    lineEntries (scalars ++ sections.map sectionEntry) = scalars := by
  have all : lineEntries scalars = scalars :=
    List.filter_eq_self.mpr fun e member => (plain e member).isInline
  have none : lineEntries (sections.map sectionEntry) = [] := by
    rw [lineEntries, List.filter_eq_nil_iff]
    intro e member
    obtain ⟨s, _, rfl⟩ := List.mem_map.mp member
    simp [sectionEntry, Toml.isInline]
  rw [lineEntries] at all none ⊢
  rw [List.filter_append, all, none, List.append_nil]

theorem linePairs_paged (plain : ∀ e ∈ scalars, Scalar e.2) :
    linePairs (scalars ++ sections.map sectionEntry) = pairsOf scalars := by
  rw [linePairs, lineEntries_paged plain, sortedValues, pairsOf, pairsOf, List.map_map]
  refine List.map_congr_left fun e member => ?_
  dsimp only [Function.comp_apply]
  rw [(plain e member).sorted]

theorem linePairs_scalars (plain : ∀ e ∈ scalars, Scalar e.2) :
    linePairs scalars = pairsOf scalars := by
  have paged := @linePairs_paged scalars [] plain
  rwa [List.map_nil, List.append_nil] at paged

theorem isHeaded_scalars (plain : ∀ e ∈ scalars, Scalar e.2) : isHeaded scalars = true := by
  cases scalars with
  | nil => rfl
  | cons e scalars => simp [isHeaded, (plain e List.mem_cons_self).isInline]

/-! ## Blocks and paragraphs -/

theorem innerBlocks_scalars (plain : ∀ e ∈ scalars, Scalar e.2) (more : List (String × Toml)) :
    innerBlocks (scalars ++ more) = innerBlocks more := by
  induction scalars with
  | nil => rfl
  | cons e scalars ih =>
    obtain ⟨first, others⟩ := List.forall_mem_cons.mp plain
    rw [List.cons_append, innerBlocks, blocksOf_isInline _ first.isInline, List.nil_append,
      ih others]

theorem innerParagraphs_scalars (path : List String) (plain : ∀ e ∈ scalars, Scalar e.2)
    (more : List (String × Toml)) :
    innerParagraphs path (scalars ++ more) = innerParagraphs path more := by
  induction scalars with
  | nil => rfl
  | cons e scalars ih =>
    obtain ⟨first, others⟩ := List.forall_mem_cons.mp plain
    rw [List.cons_append, innerParagraphs, paragraphs_isInline _ first.isInline, List.nil_append,
      ih others]

theorem innerBlocks_sections (inner : ∀ s ∈ sections, ∀ e ∈ s.2, Scalar e.2) :
    innerBlocks (sections.map sectionEntry) = sections.map sectionBlock := by
  induction sections with
  | nil => rfl
  | cons s sections ih =>
    obtain ⟨plain, others⟩ := List.forall_mem_cons.mp inner
    have none := innerBlocks_scalars plain []
    rw [List.append_nil] at none
    rw [List.map_cons, sectionEntry, innerBlocks, blocksOf, tableBlock,
      if_pos (isHeaded_scalars plain), none, linePairs_scalars plain, ih others]
    rfl

theorem innerParagraphs_sections (inner : ∀ s ∈ sections, ∀ e ∈ s.2, Scalar e.2) :
    innerParagraphs [] (sections.map sectionEntry) =
      sections.map fun s => tableHeader [s.1] ++ valueLines s.2 := by
  induction sections with
  | nil => rfl
  | cons s sections ih =>
    obtain ⟨plain, others⟩ := List.forall_mem_cons.mp inner
    have none := innerParagraphs_scalars [s.1] plain []
    rw [List.append_nil] at none
    have header : (s.2.isEmpty || s.2.any fun e => isInline e.2) = true := isHeaded_scalars plain
    rw [List.map_cons, sectionEntry, innerParagraphs, List.nil_append, paragraphs, tableParagraph,
      if_pos header, none, ih others]
    rfl

theorem lays_paged (plain : ∀ e ∈ scalars, Scalar e.2) :
    Lays Line (valueLines (scalars ++ sections.map sectionEntry))
      ((linePairs (scalars ++ sections.map sectionEntry)).map .pair) := by
  refine lays_valueLines fun e member inline => ?_
  have scalar : Scalar e.2 := by
    have line : e ∈ lineEntries (scalars ++ sections.map sectionEntry) :=
      List.mem_filter.mpr ⟨member, inline⟩
    rw [lineEntries_paged plain] at line
    exact plain e line
  rw [scalar.sorted]
  exact line_pair e.1 scalar

theorem lays_section {s : String × List (String × Toml)} (plain : ∀ e ∈ s.2, Scalar e.2) :
    Lays Line (tableHeader [s.1] ++ valueLines s.2) (sectionBlock s).statements := by
  have lines := @lays_paged s.2 [] plain
  rw [List.map_nil, List.append_nil, linePairs_scalars plain] at lines
  exact (lays_tableHeader (line_header [] s.1 (by decide))).append lines

end Pages

/-! ## Documents -/

/-- A table of scalars with tables of scalars after them, no key being there twice. -/
inductive Paged : Toml → Prop where
  | table {scalars : List (String × Toml)} {sections : List (String × List (String × Toml))}
      (plain : ∀ e ∈ scalars, Scalar e.2) (inner : ∀ s ∈ sections, ∀ e ∈ s.2, Scalar e.2)
      (distinct : ((scalars ++ sections.map sectionEntry).map Prod.fst).Nodup)
      (innerDistinct : ∀ s ∈ sections, (s.2.map Prod.fst).Nodup) :
      Paged (.table (scalars ++ sections.map sectionEntry))

theorem Paged.writable {t : Toml} (paged : Paged t) : Writable List.Nodup t := by
  cases paged with
  | table plain inner distinct innerDistinct =>
    refine .table distinct
      (List.forall_mem_append.mpr ⟨fun e member => (plain e member).writable, ?_⟩)
    refine List.forall_mem_map.mpr fun s member => ?_
    exact .table (innerDistinct s member) fun e member' => (inner s member e member').writable

/-- A written document is read back, sorted by key. -/
theorem Paged.ofText?_documentText {entries : List (String × Toml)}
    (paged : Paged (.table entries)) :
    ofText? (documentText entries) = some (sorted (.table entries)) := by
  have made := paged.writable.ofStatements?
  generalize whole : Toml.table entries = t at paged
  cases paged with
  | @table scalars sections plain inner distinct innerDistinct =>
    cases whole
    have paragraphs : List.Forall₂ (Lays Line)
        (innerParagraphs [] (scalars ++ sections.map sectionEntry))
        ((innerBlocks (scalars ++ sections.map sectionEntry)).map Block.statements) := by
      rw [innerParagraphs_scalars [] plain, innerParagraphs_sections inner,
        innerBlocks_scalars plain, innerBlocks_sections inner, List.map_map,
        List.forall₂_map_left_iff, List.forall₂_map_right_iff, List.forall₂_same]
      exact fun s member => lays_section (inner s member)
    obtain ⟨text, written, laid⟩ := laid_documentText (lays_paged plain) paragraphs
    rw [written, laid.ofText?, made]

theorem innerParagraphs_filter (path : List String) (entries : List (String × Toml)) :
    innerParagraphs path entries =
      innerParagraphs path (entries.filter fun e => !isInline e.2) := by
  induction entries with
  | nil => rfl
  | cons e entries ih =>
    rw [innerParagraphs, ih]
    by_cases inline : isInline e.2 = true
    · rw [List.filter_cons_of_neg (by simp [inline]), paragraphs_isInline _ inline]
      rfl
    · rw [List.filter_cons_of_pos (by simp [inline]), innerParagraphs]

theorem documentText_congr {entries entries' : List (String × Toml)}
    (values : (entries.filter fun e => isInline e.2) = entries'.filter fun e => isInline e.2)
    (tables : (entries.filter fun e => !isInline e.2) = entries'.filter fun e => !isInline e.2) :
    documentText entries = documentText entries' := by
  rw [documentText, documentText, innerParagraphs_filter, tables, ← innerParagraphs_filter,
    valueLines, values]
  rfl

end ProxyConsole.Toml
