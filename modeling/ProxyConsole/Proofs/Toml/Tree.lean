import ProxyConsole.Proofs.Json.Collection
import ProxyConsole.Proofs.Json.Record
import ProxyConsole.Toml.Basic

/-!
# Values as documents

A value taken from JSON looks like the document that is written for the same JSON.
Sorting its tables only puts the members of objects in another order.
-/

set_option autoImplicit false

namespace ProxyConsole

open Json

mutual

theorem Json.Written.node_eq {j : Json} {node : Node} {t : Toml} :
    Written j node → Toml.ofJson? j = some t → t.node = node
  | .null, taken => by cases taken
  | .bool b, taken => by
    cases taken
    rfl
  | .integer i _, taken => by
    rw [Toml.ofJson?] at taken
    split at taken
    · cases taken
      rfl
    · cases taken
  | .string s, taken => by
    cases taken
    rfl
  | .array each, taken => by
    rw [Toml.ofJson?] at taken
    obtain ⟨items, taken', rfl⟩ := Option.map_eq_some_iff.mp taken
    rw [Toml.node, each.itemNodes_eq taken']
  | .object each, taken => by
    rw [Toml.ofJson?] at taken
    obtain ⟨entries, taken', rfl⟩ := Option.map_eq_some_iff.mp taken
    rw [Toml.node, each.memberNodes_eq taken']

theorem Json.WrittenItems.itemNodes_eq {js : List Json} {nodes : List Node} {items : List Toml} :
    WrittenItems js nodes → Toml.ofJsonItems? js = some items → Toml.itemNodes items = nodes
  | .nil, taken => by
    cases taken
    rfl
  | .cons first others, taken => by
    simp only [Toml.ofJsonItems?, Option.bind_eq_bind, Option.pure_def,
      Option.bind_eq_some_iff] at taken
    obtain ⟨item, item', items, items', same⟩ := taken
    cases same
    rw [Toml.itemNodes, first.node_eq item', others.itemNodes_eq items']

theorem Json.WrittenMembers.memberNodes_eq {members : List (String × Json)}
    {nodes : List (Literal × Node)} {entries : List (String × Toml)} :
    WrittenMembers members nodes → Toml.ofJsonMembers? members = some entries →
      Toml.memberNodes entries = nodes
  | .nil, taken => by
    cases taken
    rfl
  | .cons key first others, taken => by
    simp only [Toml.ofJsonMembers?, Option.bind_eq_bind, Option.pure_def,
      Option.bind_eq_some_iff] at taken
    obtain ⟨value, value', entries, entries', same⟩ := taken
    cases same
    rw [Toml.memberNodes, first.node_eq value', others.memberNodes_eq entries']
    rfl

end

/-! ## Sorted tables -/

namespace Toml

theorem itemNodes_eq_map (items : List Toml) : itemNodes items = items.map node := by
  induction items with
  | nil => rfl
  | cons item items ih => rw [itemNodes, ih, List.map_cons]

theorem memberNodes_eq_map (entries : List (String × Toml)) :
    memberNodes entries = entries.map fun e => (literal e.1, e.2.node) := by
  induction entries with
  | nil => rfl
  | cons e entries ih => rw [memberNodes, ih]; rfl

theorem sortedEntries_eq_foldr (entries : List (String × Toml)) :
    sortedEntries entries =
      entries.foldr (fun e rest => insertSorted e.1 (sorted e.2) rest) [] := by
  induction entries with
  | nil => rfl
  | cons e entries ih => rw [sortedEntries, ih, List.foldr_cons]

theorem sortedEntries_perm {entries : List (String × Toml)}
    (distinct : (entries.map Prod.fst).Nodup) :
    (sortedEntries entries).Perm (entries.map fun e => (e.1, sorted e.2)) := by
  rw [sortedEntries_eq_foldr]
  exact foldr_insertSorted_perm sorted distinct

/-- A value without arrays whose tables have distinct keys. -/
inductive Tidy : Toml → Prop where
  | string (s : String) : Tidy (.string s)
  | integer (i : Int) : Tidy (.integer i)
  | bool (b : Bool) : Tidy (.bool b)
  | table {entries : List (String × Toml)} (distinct : (entries.map Prod.fst).Nodup)
      (each : ∀ e ∈ entries, Tidy e.2) : Tidy (.table entries)

theorem Tidy.reordered {t : Toml} (tidy : Tidy t) : Reordered t.node (sorted t).node := by
  induction tidy with
  | string s => exact .same _
  | integer i => exact .same _
  | bool b => exact .same _
  | @table entries distinct each ih =>
    have members : ReorderedMembers (memberNodes entries)
        (memberNodes (entries.map fun e => (e.1, sorted e.2))) := by
      clear distinct each
      induction entries with
      | nil => exact .nil
      | cons e entries ih' =>
        exact .cons _ (ih e List.mem_cons_self) (ih' fun e' member =>
          ih e' (List.mem_cons_of_mem e member))
    refine .object members ?_
    rw [memberNodes_eq_map, memberNodes_eq_map]
    exact ((sortedEntries_perm distinct).map _).symm

end Toml

end ProxyConsole
