import Mathlib.Data.List.Nodup

/-!
# Lists by position

What stands at a position of a list after the list went on at its end, or an item was
put in the place of another.
-/

set_option autoImplicit false

namespace ProxyConsole.Positions

variable {α : Type}

theorem getElem?_concat_cases {l : List α} {a b : α} {i : Nat} (found : (l ++ [a])[i]? = some b) :
    l[i]? = some b ∨ (i = l.length ∧ b = a) := by
  by_cases inside : i < l.length
  · rw [List.getElem?_append_left inside] at found
    exact Or.inl found
  · have bound := (List.getElem?_eq_some_iff.mp found).1
    have last : i = l.length := by
      simp only [List.length_append, List.length_singleton] at bound
      omega
    subst last
    simp only [List.getElem?_concat_length, Option.some.injEq] at found
    exact Or.inr ⟨rfl, found.symm⟩

theorem getElem?_concat_of_some {l : List α} {b : α} {i : Nat} (a : α) (found : l[i]? = some b) :
    (l ++ [a])[i]? = some b := by
  rw [List.getElem?_append_left (List.getElem?_eq_some_iff.mp found).1]
  exact found

theorem getElem?_concat_of_ne {l : List α} {i : Nat} (a : α) (other : i ≠ l.length) :
    (l ++ [a])[i]? = l[i]? := by
  rcases Nat.lt_or_gt_of_ne other with inside | outside
  · exact List.getElem?_append_left inside
  · have beyond : (l ++ [a]).length ≤ i := by simpa using Nat.succ_le_of_lt outside
    rw [List.getElem?_eq_none beyond, List.getElem?_eq_none (Nat.le_of_lt outside)]

theorem getElem?_of_prefix {l l' : List α} {a : α} {i : Nat} (longer : l <+: l')
    (found : l[i]? = some a) : l'[i]? = some a := by
  obtain ⟨inside, rfl⟩ := List.getElem?_eq_some_iff.mp found
  exact List.prefix_iff_getElem?.mp longer i inside

theorem getElem?_set_cases {l : List α} {a b : α} {i j : Nat}
    (found : (l.set i a)[j]? = some b) : (j = i ∧ b = a) ∨ (j ≠ i ∧ l[j]? = some b) := by
  by_cases same : j = i
  · subst same
    have inside : j < l.length := by
      have bound := (List.getElem?_eq_some_iff.mp found).1
      simpa only [List.length_set] using bound
    rw [List.getElem?_set_self inside] at found
    cases found
    exact Or.inl ⟨rfl, rfl⟩
  · rw [List.getElem?_set_ne (Ne.symm same)] at found
    exact Or.inr ⟨same, found⟩

theorem getElem?_set_of_some {l : List α} {b : α} {i : Nat} (a : α) (found : l[i]? = some b) :
    (l.set i a)[i]? = some a :=
  List.getElem?_set_self (List.getElem?_eq_some_iff.mp found).1

theorem set_split {l : List α} {a : α} {i : Nat} (found : l[i]? = some a) :
    ∃ before after, l = before ++ a :: after ∧ ∀ b, l.set i b = before ++ b :: after := by
  obtain ⟨inside, rfl⟩ := List.getElem?_eq_some_iff.mp found
  refine ⟨l.take i, l.drop (i + 1), ?_, ?_⟩
  · rw [List.getElem_cons_drop inside, List.take_append_drop]
  · intro b
    rw [List.set_eq_take_append_cons_drop, if_pos inside]

theorem map_set_of_same {β : Type} {f : α → β} {l : List α} {a b : α} {i : Nat}
    (found : l[i]? = some a) (same : f b = f a) : (l.set i b).map f = l.map f := by
  obtain ⟨before, after, rfl, replaced⟩ := set_split found
  rw [replaced, List.map_append, List.map_append, List.map_cons, List.map_cons, same]

/-- What more comes of one item comes last, up to the order. -/
theorem flatMap_concat_perm {β : Type} {l : List α} (distinct : l.Nodup) {a : α} (member : a ∈ l)
    {f f' : α → List β} {more : List β} (gains : f' a = f a ++ more)
    (same : ∀ b ∈ l, b ≠ a → f' b = f b) : (l.flatMap f').Perm (l.flatMap f ++ more) := by
  obtain ⟨before, after, rfl⟩ := List.append_of_mem member
  rw [List.nodup_append, List.nodup_cons] at distinct
  obtain ⟨_, ⟨absent, _⟩, apart⟩ := distinct
  have earlier : before.flatMap f' = before.flatMap f := by
    refine List.flatMap_congr fun b inside => same b (List.mem_append_left _ inside) ?_
    exact apart b inside a List.mem_cons_self
  have later : after.flatMap f' = after.flatMap f := by
    refine List.flatMap_congr fun b inside =>
      same b (List.mem_append_right _ (List.mem_cons_of_mem a inside)) ?_
    rintro rfl
    exact absent inside
  rw [List.flatMap_append, List.flatMap_append, List.flatMap_cons, List.flatMap_cons, earlier,
    later, gains, List.append_assoc, List.append_assoc, List.append_assoc]
  exact ((List.perm_append_comm).append_left _).append_left _

theorem zipIdx_nodup (l : List α) : l.zipIdx.Nodup := by
  refine List.Nodup.of_map Prod.snd ?_
  rw [List.zipIdx_map_snd]
  exact List.nodup_range' ..

/-! ## Filtered lists -/

section Filter

variable {p : α → Bool} {l : List α} {a b : α} {i : Nat}

theorem filter_around (found : l[i]? = some a) (kept : p a = true) :
    l.filter p = (l.take i).filter p ++ a :: (l.drop (i + 1)).filter p := by
  obtain ⟨inside, rfl⟩ := List.getElem?_eq_some_iff.mp found
  calc
    l.filter p = (l.take i ++ l.drop i).filter p := by rw [List.take_append_drop]
    _ = (l.take i).filter p ++ l[i] :: (l.drop (i + 1)).filter p := by
      rw [← List.getElem_cons_drop inside, List.filter_append, List.filter_cons_of_pos kept]

theorem getElem?_filter (found : l[i]? = some a) (kept : p a = true) :
    (l.filter p)[(l.take i).countP p]? = some a := by
  rw [filter_around found kept, List.countP_eq_length_filter,
    List.getElem?_append_right (Nat.le_refl _), Nat.sub_self]
  rfl

theorem filter_set_of_pos (found : l[i]? = some a) (kept : p a = true) (keeps : p b = true) :
    (l.set i b).filter p = (l.filter p).set ((l.take i).countP p) b := by
  have inside := (List.getElem?_eq_some_iff.mp found).1
  rw [filter_around found kept, List.set_eq_take_append_cons_drop, if_pos inside,
    List.filter_append, List.filter_cons_of_pos keeps, List.countP_eq_length_filter,
    List.set_append_right _ _ (Nat.le_refl _), Nat.sub_self]
  rfl

theorem filter_set_of_neg (found : l[i]? = some a) (dropped : ¬ p a = true) (drops : ¬ p b = true) :
    (l.set i b).filter p = l.filter p := by
  obtain ⟨before, after, rfl, replaced⟩ := set_split found
  rw [replaced, List.filter_append, List.filter_append, List.filter_cons_of_neg dropped,
    List.filter_cons_of_neg drops]

end Filter

theorem findIdx?_congr {p q : α → Bool} {l : List α} (same : ∀ a ∈ l, p a = q a) :
    l.findIdx? p = l.findIdx? q := by
  induction l with
  | nil => rfl
  | cons a rest tail =>
    rw [List.findIdx?_cons, List.findIdx?_cons, same a List.mem_cons_self,
      tail fun b member => same b (List.mem_cons_of_mem a member)]

end ProxyConsole.Positions
