import ProxyConsole.Proofs.Toml.Tree
import ProxyConsole.Proofs.Toml.Writable
import ProxyConsole.Toml.Printer

/-!
# The order of entries

Before a table is written its entries are ranked by kind, and a table that is read is
sorted by key.  Either order holds the same entries, so a ranked value is sorted as the
value itself is.
-/

set_option autoImplicit false

namespace ProxyConsole.Toml

theorem sortedItems_eq_map (items : List Toml) : sortedItems items = items.map sorted := by
  induction items with
  | nil => rfl
  | cons item items ih => rw [sortedItems, ih, List.map_cons]

theorem rankedItems_eq_map (items : List Toml) : rankedItems items = items.map ranked := by
  induction items with
  | nil => rfl
  | cons item items ih => rw [rankedItems, ih, List.map_cons]

theorem rankedEntries_eq_map (entries : List (String × Toml)) :
    rankedEntries entries = entries.map fun e => (e.1, ranked e.2) := by
  induction entries with
  | nil => rfl
  | cons e entries ih => rw [rankedEntries, ih, List.map_cons]

theorem rank_le (v : Toml) : rank v ≤ 2 := by
  unfold rank
  split
  · decide
  · split <;> decide
  · decide

theorem byRank_perm (entries : List (String × Toml)) : (byRank entries).Perm entries := by
  induction entries with
  | nil => exact .nil
  | cons e entries ih =>
    have known : rank e.2 = 0 ∨ rank e.2 = 1 ∨ rank e.2 = 2 := by
      have most := rank_le e.2
      omega
    refine .trans ?_ (ih.cons e)
    simp only [byRank, List.flatMap_cons, List.flatMap_nil, List.append_nil, List.filter_cons]
    rcases known with rank | rank | rank
    · simp [rank]
    · simp [rank]
    · simpa [rank] using (List.perm_middle.append_left _).trans List.perm_middle

theorem sortedEntries_ascending (entries : List (String × Toml)) :
    Ascending (sortedEntries entries) := by
  induction entries with
  | nil => exact List.Pairwise.nil
  | cons e entries ih => exact ih.insertSorted _ _

/-- A table sorts its entries in the same way whatever order they stand in. -/
theorem sortedEntries_congr {entries entries' : List (String × Toml)}
    (order : entries.Perm entries')
    (distinct : (entries.map Prod.fst).Nodup) : sortedEntries entries = sortedEntries entries' := by
  have distinct' := (order.map Prod.fst).nodup distinct
  have same := ((sortedEntries_perm distinct).trans (order.map fun e => (e.1, sorted e.2))).trans
    (sortedEntries_perm distinct').symm
  exact same.eq_of_pairwise (fun a b _ _ before after => absurd after (String.lt_asymm before))
    (sortedEntries_ascending entries) (sortedEntries_ascending entries')

theorem Writable.sorted {v : Toml} (writable : Writable Rising v) : sorted v = v := by
  induction writable with
  | @array items _ ih =>
    rw [Toml.sorted, sortedItems_eq_map, List.map_congr_left ih, List.map_id']
  | @table entries keys each ih =>
    rw [Toml.sorted]
    congr 1
    have ascending := rising_iff.mp keys
    clear keys each
    induction entries with
    | nil => rfl
    | cons e entries inner =>
      obtain ⟨first, others⟩ := List.pairwise_cons.mp ascending
      obtain ⟨same, ih⟩ := List.forall_mem_cons.mp ih
      rw [sortedEntries, same, inner ih others]
      cases entries with
      | nil => rfl
      | cons e' entries => rw [insertSorted, if_pos (first e' List.mem_cons_self)]
  | _ => rfl

theorem rankedEntries_spec {entries : List (String × Toml)} (keys : (entries.map Prod.fst).Nodup)
    (each : ∀ e ∈ entries, Writable List.Nodup (ranked e.2) ∧ sorted (ranked e.2) = sorted e.2) :
    Writable List.Nodup (.table (rankedEntries entries)) ∧
      sortedEntries (rankedEntries entries) = sortedEntries entries := by
  rw [rankedEntries_eq_map]
  constructor
  · refine .table ?_ (List.forall_mem_map.mpr fun e member => (each e member).1)
    rw [List.map_map]
    exact keys
  · rw [sortedEntries_eq_foldr, sortedEntries_eq_foldr, List.foldr_map]
    exact List.foldr_ext _ _ _ fun e member _ => by rw [(each e member).2]

theorem Writable.ranked {v : Toml} (writable : Writable List.Nodup v) :
    Writable List.Nodup (ranked v) ∧ Toml.sorted (Toml.ranked v) = Toml.sorted v := by
  induction writable with
  | @array items _ ih =>
    rw [Toml.ranked, rankedItems_eq_map, Toml.sorted, Toml.sorted, sortedItems_eq_map,
      sortedItems_eq_map, List.map_map]
    refine ⟨.array (List.forall_mem_map.mpr fun item member => (ih item member).1), ?_⟩
    exact congrArg Toml.array (List.map_congr_left fun item member => (ih item member).2)
  | @table entries keys _ ih =>
    have order := byRank_perm (rankedEntries entries)
    obtain ⟨writable, same⟩ := rankedEntries_spec keys ih
    cases writable with
    | table keys' each' =>
      rw [Toml.ranked, Toml.sorted, Toml.sorted, ← sortedEntries_congr order.symm keys', same]
      refine ⟨.table ((order.map Prod.fst).symm.nodup keys') fun e member => ?_, rfl⟩
      exact each' e (order.mem_iff.mp member)
  | string s => exact ⟨.string s, rfl⟩
  | integer fits => exact ⟨.integer fits, rfl⟩
  | float bits => exact ⟨.float bits, rfl⟩
  | bool b => exact ⟨.bool b, rfl⟩
  | moment fits => exact ⟨.moment fits, rfl⟩

theorem Writable.rankedEntries {entries : List (String × Toml)}
    (writable : Writable List.Nodup (.table entries)) :
    Writable List.Nodup (.table (rankedEntries entries)) ∧
      Toml.sorted (.table (Toml.rankedEntries entries)) = Toml.sorted (.table entries) := by
  cases writable with
  | table keys each =>
    obtain ⟨ranked, same⟩ := rankedEntries_spec keys fun e member => (each e member).ranked
    exact ⟨ranked, by rw [Toml.sorted, Toml.sorted, same]⟩

end ProxyConsole.Toml
