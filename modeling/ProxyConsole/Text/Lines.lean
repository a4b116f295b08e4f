/-!
# Lines

A text taken apart at its line feeds.  Putting the lines together again gives the text back.
-/

set_option autoImplicit false

namespace ProxyConsole.Text

/-- The pieces of a list between the elements that satisfy `p`, empty ones included. -/
def splitWhere {α : Type} (p : α → Bool) : List α → List (List α)
  | [] => [[]]
  | x :: xs =>
    if p x then [] :: splitWhere p xs
    else
      match splitWhere p xs with
      | [] => [[x]]
      | piece :: pieces => (x :: piece) :: pieces

def lines (cs : List Char) : List (List Char) :=
  splitWhere (· = '\n') cs

theorem splitWhere_ne_nil {α : Type} (p : α → Bool) (xs : List α) : splitWhere p xs ≠ [] := by
  cases xs with
  | nil => simp [splitWhere]
  | cons x xs =>
    unfold splitWhere
    split
    · simp
    · split <;> simp

/-- What was taken apart at an element is put together again with the element between the pieces. -/
theorem intercalate_splitWhere {α : Type} [DecidableEq α] (x : α) (xs : List α) :
    List.intercalate [x] (splitWhere (· = x) xs) = xs := by
  induction xs with
  | nil => rfl
  | cons y xs ih =>
    have ne := splitWhere_ne_nil (· = x) xs
    unfold splitWhere
    cases h : splitWhere (· = x) xs with
    | nil => exact absurd h ne
    | cons piece pieces =>
      rw [h] at ih
      by_cases hy : y = x
      · subst hy
        simp only [decide_true, if_true]
        rw [← ih]
        cases pieces <;> simp [List.intercalate, List.intersperse]
      · simp only [hy, decide_false, Bool.false_eq_true, if_false]
        rw [← ih]
        cases pieces <;> simp [List.intercalate, List.intersperse]

theorem intercalate_lines (cs : List Char) : List.intercalate ['\n'] (lines cs) = cs :=
  intercalate_splitWhere '\n' cs

end ProxyConsole.Text
