import ProxyConsole.Console.Command
import ProxyConsole.Proofs.Json.Collection

/-!
# Sorted documents

Sorting the members of objects, at every level, leaves a document that is scanned to the
same members in another order.  So a record that is read in any order is read from the
sorted document too.
-/

set_option autoImplicit false

namespace ProxyConsole

open Json Console

namespace Json

/-- A value without arrays whose objects have distinct keys. -/
inductive Tidy : Json → Prop where
  | null : Tidy .null
  | bool (b : Bool) : Tidy (.bool b)
  | number (n : Number) : Tidy (.number n)
  | string (s : String) : Tidy (.string s)
  | object {members : List (String × Json)} (distinct : (members.map Prod.fst).Nodup)
      (each : ∀ m ∈ members, Tidy m.2) : Tidy (.object members)

theorem sortedMembers_eq_foldr (members : List (String × Json)) :
    sortedMembers members =
      members.foldr (fun m rest => insertSorted m.1 (sortedJson m.2) rest) [] := by
  induction members with
  | nil => rfl
  | cons m members ih => rw [sortedMembers, ih, List.foldr_cons]

theorem WrittenMembers.perm {members members' : List (String × Json)}
    {nodes : List (Literal × Node)} (written : WrittenMembers members nodes)
    (order : members.Perm members') :
    ∃ nodes', WrittenMembers members' nodes' ∧ nodes.Perm nodes' := by
  induction order generalizing nodes with
  | nil => exact ⟨nodes, written, .refl _⟩
  | cons m _ ih =>
    cases written with
    | cons key first others =>
      obtain ⟨nodes', written', order'⟩ := ih others
      exact ⟨_, .cons key first written', order'.cons _⟩
  | swap m m' members =>
    cases written with
    | cons key first others =>
      cases others with
      | cons key' first' others' => exact ⟨_, .cons key' first' (.cons key first others'), .swap ..⟩
  | trans _ _ ih ih' =>
    obtain ⟨between, written', order'⟩ := ih written
    obtain ⟨nodes', written'', order''⟩ := ih' written'
    exact ⟨nodes', written'', order'.trans order''⟩

/-- A sorted document is scanned to the same tree with its members in another order. -/
theorem Written.sorted {j : Json} {node : Node} (written : Written j node) (tidy : Tidy j) :
    ∃ node', Written (sortedJson j) node' ∧ Reordered node node' := by
  induction tidy generalizing node with
  | @object members distinct each ih =>
    cases written with
    | @object _ nodes written =>
      have inner : ∃ between, WrittenMembers (members.map fun m => (m.1, sortedJson m.2)) between ∧
          ReorderedMembers nodes between := by
        clear distinct each
        induction members generalizing nodes with
        | nil =>
          cases written
          exact ⟨[], .nil, .nil⟩
        | cons m members ih' =>
          cases written with
          | cons key first others =>
            obtain ⟨node', written', reordered⟩ := ih _ List.mem_cons_self first
            obtain ⟨between, written'', each⟩ :=
              ih' (fun m' member => ih m' (List.mem_cons_of_mem _ member)) others
            exact ⟨_, .cons key written' written'', .cons _ reordered each⟩
      obtain ⟨between, written', each'⟩ := inner
      have order := foldr_insertSorted_perm sortedJson distinct
      rw [← sortedMembers_eq_foldr] at order
      obtain ⟨nodes', written'', order'⟩ := written'.perm order.symm
      refine ⟨.object nodes' none, ?_, .object each' order'⟩
      rw [sortedJson]
      exact .object written''
  | _ =>
    refine ⟨node, ?_, .same node⟩
    rw [sortedJson]
    · exact written
    all_goals nofun

end Json

/-! ## Records -/

/-- Whatever is written is tidy. -/
def Codec.WritesTidy {α : Type} (c : Codec α) : Prop :=
  ∀ a, Tidy (c.encode a)

def Field.WritesTidy {σ : Type} (f : Field σ) : Prop :=
  ∀ s j, f.render s = some j → Tidy j

theorem Field.writesTidy_of {σ α : Type} {c : Codec α} {name : String} {get : σ → α}
    {set : σ → α → σ} {required : Bool} (tidy : c.WritesTidy) :
    (Field.of name c get set required).WritesTidy := by
  intro s j rendered
  cases rendered
  exact tidy (get s)

theorem Record.writesTidy {σ : Type} {r : Record σ} (distinct : (r.fields.map Field.name).Nodup)
    (fields : ∀ f ∈ r.fields, f.WritesTidy) : r.codec.WritesTidy := by
  intro s
  refine .object ((membersOf_names s r.fields).nodup distinct) fun m member => ?_
  obtain ⟨f, field, rendered⟩ := List.mem_filterMap.mp member
  obtain ⟨j, shown, rfl⟩ := Option.map_eq_some_iff.mp rendered
  exact fields f field s j shown

theorem Codec.Faithful.sorted {α : Type} {c : Codec α} (faithful : c.Faithful)
    (orderless : c.Orderless) (tidy : c.WritesTidy) (a : α) :
    ∃ node, Written (sortedJson (c.encode a)) node ∧ c.decode node = .ok a := by
  obtain ⟨node, written, decoded⟩ := faithful a
  obtain ⟨node', written', reordered⟩ := written.sorted (tidy a)
  exact ⟨node', written', orderless node node' a reordered decoded⟩

end ProxyConsole
