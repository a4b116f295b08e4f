/-!
# What has held ever since

A history is a list of events, the latest last.  Something holds *since* something else
if the latter occurred at one of the events, and every event after that let it last.
-/

set_option autoImplicit false

namespace ProxyConsole

variable {ε : Type}

/-- Some event of a history is an occurrence, and each later event lets it last.  Both may
look at the history before the event. -/
def Since (occurs lasts : List ε → ε → Prop) (history : List ε) : Prop :=
  ∃ before event later, history = before ++ event :: later ∧ occurs before event ∧
    ∀ between next rest, later = between ++ next :: rest → lasts (before ++ event :: between) next

namespace Since

variable {occurs lasts : List ε → ε → Prop}

theorem concat_split_cases {history before later : List ε} {event first : ε}
    (split : history ++ [event] = before ++ first :: later) :
    (before = history ∧ first = event ∧ later = []) ∨
      ∃ shorter, later = shorter ++ [event] ∧ history = before ++ first :: shorter := by
  rcases List.eq_nil_or_concat later with rfl | ⟨shorter, last, rfl⟩
  · obtain ⟨same, single⟩ := List.append_inj' split rfl
    exact Or.inl ⟨same.symm, (List.singleton_inj.mp single).symm, rfl⟩
  · have longer : history ++ [event] = (before ++ first :: shorter) ++ [last] := by
      simpa using split
    obtain ⟨same, single⟩ := List.append_inj' longer rfl
    obtain rfl := List.singleton_inj.mp single
    exact Or.inr ⟨shorter, by simp, same⟩

theorem not_nil : ¬ Since occurs lasts [] := by
  rintro ⟨before, event, later, split, _⟩
  simp at split

theorem now {history : List ε} {event : ε} (occurred : occurs history event) :
    Since occurs lasts (history ++ [event]) := by
  refine ⟨history, event, [], rfl, occurred, ?_⟩
  intro between next rest split
  simp at split

theorem lasting {history : List ε} {event : ε} (since : Since occurs lasts history)
    (last : lasts history event) : Since occurs lasts (history ++ [event]) := by
  obtain ⟨before, first, later, rfl, occurred, lasted⟩ := since
  refine ⟨before, first, later ++ [event], by simp, occurred, ?_⟩
  intro between next rest split
  rcases concat_split_cases split with ⟨rfl, rfl, _⟩ | ⟨shorter, _, split⟩
  · exact last
  · exact lasted between next shorter split

theorem concat_iff {history : List ε} {event : ε} :
    Since occurs lasts (history ++ [event]) ↔
      occurs history event ∨ (Since occurs lasts history ∧ lasts history event) := by
  constructor
  · rintro ⟨before, first, later, split, occurred, lasted⟩
    rcases concat_split_cases split with ⟨rfl, rfl, _⟩ | ⟨shorter, rfl, rfl⟩
    · exact Or.inl occurred
    · refine Or.inr ⟨⟨before, first, shorter, rfl, occurred, ?_⟩, lasted shorter event [] rfl⟩
      intro between next rest split
      exact lasted between next (rest ++ [event]) (by simp [split])
  · rintro (occurred | ⟨since, last⟩)
    · exact now occurred
    · exact since.lasting last

end Since

end ProxyConsole
