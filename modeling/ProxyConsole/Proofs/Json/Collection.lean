import Mathlib.Data.String.Basic
import ProxyConsole.Proofs.Json.Order
import ProxyConsole.Proofs.Json.Record

/-!
# Collections

Options, lists and maps are read back if their values are.  A map is held in the order
of its keys, and what is read as one always stands in this order.
-/

set_option autoImplicit false

namespace ProxyConsole

open Json

variable {α : Type}

/-! ## Sorted entries -/

/-- Entries in the order of their keys, no key being there twice. -/
def Ascending (entries : List (String × α)) : Prop :=
  entries.Pairwise fun a b => a.1 < b.1

theorem insertSorted_perm {α : Type} (key : String) (value : α) {entries : List (String × α)}
    (fresh : key ∉ entries.map Prod.fst) :
    (insertSorted key value entries).Perm ((key, value) :: entries) := by
  induction entries with
  | nil => exact .refl _
  | cons e entries ih =>
    obtain ⟨k, v⟩ := e
    rw [List.map_cons, List.mem_cons, not_or] at fresh
    rw [insertSorted]
    split
    · exact .refl _
    · rw [if_neg fresh.1]
      exact ((ih fresh.2).cons _).trans (.swap _ _ _)

theorem foldr_insertSorted_perm {β : Type} (f : β → α) {entries : List (String × β)}
    (distinct : (entries.map Prod.fst).Nodup) :
    (entries.foldr (fun e sorted => insertSorted e.1 (f e.2) sorted) []).Perm
      (entries.map fun e => (e.1, f e.2)) := by
  induction entries with
  | nil => exact .refl _
  | cons e entries ih =>
    rw [List.map_cons, List.nodup_cons] at distinct
    have later := ih distinct.2
    rw [List.foldr_cons]
    generalize entries.foldr (fun e sorted => insertSorted e.1 (f e.2) sorted) [] = sorted at later
    have fresh : e.1 ∉ sorted.map Prod.fst := by
      intro member
      have member' := (later.map Prod.fst).mem_iff.mp member
      rw [List.map_map] at member'
      exact distinct.1 member'
    exact (insertSorted_perm e.1 (f e.2) fresh).trans (later.cons _)

theorem insertSorted_last {key : String} (value : α) {entries : List (String × α)}
    (last : ∀ e ∈ entries, e.1 < key) :
    insertSorted key value entries = entries ++ [(key, value)] := by
  induction entries with
  | nil => rfl
  | cons e entries ih =>
    obtain ⟨k, v⟩ := e
    obtain ⟨before, others⟩ := List.forall_mem_cons.mp last
    rw [insertSorted, if_neg (String.lt_asymm before), if_neg (ne_of_gt before), ih others]
    rfl

theorem mem_insertSorted {key : String} {value : α} {entries : List (String × α)}
    {e : String × α} (member : e ∈ insertSorted key value entries) :
    e = (key, value) ∨ e ∈ entries := by
  induction entries with
  | nil => exact .inl (List.mem_singleton.mp member)
  | cons other entries ih =>
    rw [insertSorted] at member
    split at member
    · exact List.mem_cons.mp member
    · split at member
      · exact (List.mem_cons.mp member).imp_right (List.mem_cons_of_mem other)
      · rcases List.mem_cons.mp member with same | later
        · exact .inr (same ▸ List.mem_cons_self)
        · exact (ih later).imp_right (List.mem_cons_of_mem other)

theorem Ascending.insertSorted {entries : List (String × α)} (ascending : Ascending entries)
    (key : String) (value : α) : Ascending (insertSorted key value entries) := by
  induction entries with
  | nil => exact List.pairwise_singleton _ _
  | cons e entries ih =>
    obtain ⟨k, v⟩ := e
    obtain ⟨first, others⟩ := List.pairwise_cons.mp ascending
    rw [ProxyConsole.insertSorted]
    split
    · rename_i before
      refine List.pairwise_cons.mpr ⟨List.forall_mem_cons.mpr ⟨before, ?_⟩, ascending⟩
      exact fun e member => String.lt_trans before (first e member)
    · rename_i notBefore
      split
      · rename_i same
        rw [same]
        exact List.pairwise_cons.mpr ⟨first, others⟩
      · rename_i differ
        refine List.pairwise_cons.mpr ⟨fun e member => ?_, ih others⟩
        rcases mem_insertSorted member with rfl | later
        · exact lt_of_le_of_ne (not_lt.mp notBefore) (Ne.symm differ)
        · exact first e later

/-! ## Codecs -/

namespace Codec

variable {c : Codec α}

theorem faithful_option (faithful : c.Faithful) (marked : ∀ a, c.encode a ≠ .null) :
    c.option.Faithful := by
  intro value
  cases value with
  | none => exact ⟨.null, .null, rfl⟩
  | some a =>
    obtain ⟨node, written, decoded⟩ := faithful a
    exact ⟨node, written, decodeOption_some (marked a) written decoded⟩

theorem faithful_list (faithful : c.Faithful) : c.list.Faithful := by
  intro as
  have items : ∃ nodes, WrittenItems (as.map c.encode) nodes ∧
    decodeItems c.decode nodes = .ok as := by
    induction as with
    | nil => exact ⟨[], .nil, rfl⟩
    | cons a as ih =>
      obtain ⟨node, written, decoded⟩ := faithful a
      obtain ⟨nodes, others, decoded'⟩ := ih
      refine ⟨node :: nodes, .cons written others, ?_⟩
      simp only [decodeItems, decoded, decoded', Except.map]
  obtain ⟨nodes, written, decoded⟩ := items
  refine ⟨.array nodes none, .array written, ?_⟩
  simp only [Codec.list, decodeList, decoded, atEnd]

/-- Entries that follow those read before in the order of keys are read as they were written. -/
theorem decodeMembers_written {entries : List (String × α)} (ascending : Ascending entries)
    (each : ∀ e ∈ entries, c.Keeps e.2) :
    ∃ nodes, WrittenMembers (entries.map fun e => (e.1, c.encode e.2)) nodes ∧
      ∀ before : List (String × α), (∀ e ∈ before, ∀ e' ∈ entries, e.1 < e'.1) →
        decodeMembers c.decode nodes before = .ok (before ++ entries) := by
  induction entries with
  | nil => exact ⟨[], .nil, fun before _ => by rw [decodeMembers, List.append_nil]⟩
  | cons e entries ih =>
    obtain ⟨first, others⟩ := List.pairwise_cons.mp ascending
    obtain ⟨node, written, decoded⟩ := each e List.mem_cons_self
    obtain ⟨nodes, written', read⟩ := ih others fun e' member =>
      each e' (List.mem_cons_of_mem e member)
    refine ⟨(.ofText e.1, node) :: nodes, .cons e.1 written written', fun before lower => ?_⟩
    have inserted := insertSorted_last e.2 fun e' member => lower e' member e List.mem_cons_self
    have rest := read (before ++ [e]) (List.forall_mem_append.mpr
      ⟨fun e' member e'' later => lower e' member e'' (List.mem_cons_of_mem e later),
        by simpa using first⟩)
    rw [List.append_assoc, List.singleton_append] at rest
    simp only [decodeMembers, Literal.ofText, liftFault, decoded, inserted, rest]

theorem keeps_map {entries : List (String × α)} (ascending : Ascending entries)
    (each : ∀ e ∈ entries, c.Keeps e.2) : c.map.Keeps entries := by
  obtain ⟨nodes, written, read⟩ := decodeMembers_written ascending each
  refine ⟨.object nodes none, .object written, ?_⟩
  simp only [Codec.map, decodeMap, read [] nofun, atEnd, List.nil_append]

end Codec

/-! ## What is read -/

theorem decodeMembers_ascending {decode : Node → Except DecodeError α}
    {members : List (Literal × Node)} {before entries : List (String × α)}
    (ascending : Ascending before) (read : decodeMembers decode members before = .ok entries) :
    Ascending entries := by
  induction members generalizing before with
  | nil =>
    cases read
    exact ascending
  | cons m members ih =>
    rw [decodeMembers] at read
    split at read
    · cases read
    · split at read
      · cases read
      · exact ih (ascending.insertSorted _ _) read

theorem decodeMap_ascending {decode : Node → Except DecodeError α} {node : Node}
    {entries : List (String × α)} (read : decodeMap decode node = .ok entries) :
    Ascending entries := by
  cases node with
  | object members ending =>
    rw [decodeMap] at read
    split at read
    · cases read
    · rename_i before members'
      cases ending with
      | none =>
        cases read
        exact decodeMembers_ascending List.Pairwise.nil members'
      | some f => cases read
  | _ => cases read

section Records

variable {σ : Type} {r : Record σ} {P : σ → Prop} {Good : Node → Prop}

/-- Whatever stands directly in a node. -/
inductive Json.Node.Inside : Node → Node → Prop where
  | item {items : List Node} {item : Node} (ending : Option Fault) (member : item ∈ items) :
      Inside (.array items ending) item
  | member {members : List (Literal × Node)} {m : Literal × Node} (ending : Option Fault)
      (member : m ∈ members) : Inside (.object members ending) m.2

theorem Record.readMembers_preserves
    (stored : ∀ f ∈ r.fields, ∀ node s t, Good node → P s → f.store node s = .ok t → P t)
    {members : List (Literal × Node)} (good : ∀ m ∈ members, Good m.2) {seen : List String} {s : σ}
    {out : List String × σ} (start : P s) (read : r.readMembers members seen s = .ok out) :
    P out.2 := by
  induction members generalizing seen s with
  | nil =>
    cases read
    exact start
  | cons m members ih =>
    obtain ⟨first, others⟩ := List.forall_mem_cons.mp good
    obtain ⟨seen', t, reads, read⟩ := readMembers_cons.mp read
    cases reads with
    | unknown => exact ih others start read
    | field name f t text known fresh store =>
      exact ih others (stored f (name_of_field? known).1 _ _ _ first start store) read

theorem Record.readItems_preserves {fields : List (Field σ)}
    (stored : ∀ f ∈ fields, ∀ node s t, Good node → P s → f.store node s = .ok t → P t)
    {items : List Node}
    (good : ∀ item ∈ items, Good item) {ending : Option Fault} {index : Nat} {s t : σ} (start : P s)
    (read : readItems fields items ending index s = .ok t) : P t := by
  induction fields generalizing items index s ending with
  | nil =>
    cases items with
    | nil =>
      cases ending with
      | none =>
        cases read
        exact start
      | some f => cases read
    | cons item items => cases read
  | cons f fields ih =>
    obtain ⟨first, others⟩ := List.forall_mem_cons.mp stored
    cases items with
    | cons item items =>
      obtain ⟨here, good⟩ := List.forall_mem_cons.mp good
      rw [readItems] at read
      split at read
      · cases read
      · rename_i s' store
        exact ih others good (first _ _ _ here start store) read
    | nil =>
      cases ending with
      | some fault => cases read
      | none =>
        rw [readItems] at read
        split at read
        · cases read
        · exact ih others good start read

/-- What holds of the blank record and is kept by storing any field from a node that stands
in the one that is read holds of the record that is read. -/
theorem Record.decode_preserves_inside {node : Node}
    (good : ∀ inner, node.Inside inner → Good inner) (blank : P r.blank)
    (stored : ∀ f ∈ r.fields, ∀ node s t, Good node → P s → f.store node s = .ok t → P t) {s : σ}
    (decoded : r.decode node = .ok s) : P s := by
  cases node with
  | object members ending =>
    obtain ⟨_, seen, read, _⟩ := decode_object.mp decoded
    exact readMembers_preserves stored (fun m member => good _ (.member ending member)) blank read
  | array items ending =>
    exact readItems_preserves stored (fun item member => good _ (.item ending member)) blank decoded
  | _ => cases decoded

theorem Record.decode_preserves (blank : P r.blank)
    (stored : ∀ f ∈ r.fields, ∀ node s t, P s → f.store node s = .ok t → P t) {node : Node} {s : σ}
    (decoded : r.decode node = .ok s) : P s :=
  @decode_preserves_inside σ r P (fun _ => True) node (fun _ _ => trivial) blank
    (fun f inside node s t _ => stored f inside node s t) s decoded

end Records

end ProxyConsole
