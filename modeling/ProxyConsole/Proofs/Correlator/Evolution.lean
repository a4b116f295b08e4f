import ProxyConsole.Correlator.Listener
import ProxyConsole.Proofs.Correlator.Basic

/-!
# How the correlator goes on

Whatever uses the correlator changes it in one of three ways: some calls and responses are gone, one
call is registered, or one response is dispatched.
-/

set_option autoImplicit false

namespace ProxyConsole

namespace Correlator

/-- One change of a correlator. -/
inductive Evolves (c : Correlator) : Correlator → Prop where
  | reduces {c' : Correlator} (less : c.Reduces c') : Evolves c c'
  | allocates {c' : Correlator} {t : Ticket} (success : c.allocate = some (t, c')) : Evolves c c'
  | dispatches (e : InboundEnvelope) : Evolves c (c.dispatch e).2

theorem Reduces.refl (c : Correlator) : c.Reduces c :=
  ⟨List.Sublist.refl _, List.Sublist.refl _, rfl⟩

theorem Reduces.trans {c c' c'' : Correlator} (first : c.Reduces c') (next : c'.Reduces c'') :
    c.Reduces c'' :=
  ⟨next.pending.trans first.pending, next.delivered.trans first.delivered,
    next.registered.trans first.registered⟩

theorem Evolves.refl (c : Correlator) : c.Evolves c :=
  .reduces (.refl c)

theorem Evolves.wellFormed {c c' : Correlator} (evolves : c.Evolves c') (shape : c.WellFormed) :
    c'.WellFormed := by
  cases evolves with
  | reduces less => exact less.wellFormed shape
  | allocates success => exact shape.allocate success
  | dispatches e => exact shape.dispatch e

theorem Evolves.registered_le {c c' : Correlator} (evolves : c.Evolves c') :
    c.registered ≤ c'.registered := by
  cases evolves with
  | reduces less => exact Nat.le_of_eq less.registered.symm
  | allocates success =>
    obtain ⟨_, _, _, _, registered⟩ := allocate_cases success
    omega
  | dispatches e =>
    rcases c.dispatch_cases e with ⟨same, _⟩ | ⟨t, _, _, result⟩
    · exact Nat.le_of_eq (by rw [same])
    · exact Nat.le_of_eq (by rw [result])

theorem Evolves.pending_cases {c c' : Correlator} (evolves : c.Evolves c') {t : Ticket}
    (member : t ∈ c'.pending) : t ∈ c.pending ∨ t.serial = c.registered := by
  cases evolves with
  | reduces less => exact Or.inl (less.pending.subset member)
  | allocates success =>
    obtain ⟨serial, _, pending, _, _⟩ := allocate_cases success
    rw [pending, List.mem_append, List.mem_singleton] at member
    rcases member with earlier | rfl
    · exact Or.inl earlier
    · exact Or.inr serial
  | dispatches e =>
    rcases c.dispatch_cases e with ⟨same, _⟩ | ⟨u, _, _, result⟩
    · rw [same] at member
      exact Or.inl member
    · rw [result] at member
      exact Or.inl (List.mem_of_mem_filter member)

theorem Evolves.delivered_cases {c c' : Correlator} (evolves : c.Evolves c') {t : Ticket}
    {e : InboundEnvelope} (member : (t, e) ∈ c'.delivered) :
    (t, e) ∈ c.delivered ∨ (t ∈ c.pending ∧ e.requestId = t.id) := by
  cases evolves with
  | reduces less => exact Or.inl (less.delivered.subset member)
  | allocates success =>
    obtain ⟨_, _, _, delivered, _⟩ := allocate_cases success
    rw [delivered] at member
    exact Or.inl member
  | dispatches e' =>
    rcases c.dispatch_cases e' with ⟨same, _⟩ | ⟨u, pending, id, result⟩
    · rw [same] at member
      exact Or.inl member
    · rw [result, List.mem_append, List.mem_singleton] at member
      rcases member with earlier | last
      · exact Or.inl earlier
      · cases last
        exact Or.inr ⟨pending, id.symm⟩

theorem foldl_release_reduces {α : Type} (ticket : α → Ticket) (holders : List α) (c : Correlator) :
    c.Reduces (holders.foldl (fun c h => c.release (ticket h)) c) := by
  induction holders generalizing c with
  | nil => exact .refl c
  | cons h rest ih => exact (c.release_reduces (ticket h)).trans (ih _)

end Correlator

theorem Listener.step_evolves {l l' : Listener} {stopFirst : Bool} {c c' : Correlator}
    (step : l.step stopFirst c = some (l', c')) : c.Evolves c' := by
  unfold Listener.step at step
  split at step
  · cases step
  · split at step
    · cases step
      exact .reduces c.cancelAll_reduces
    · split at step
      · cases step
        exact .dispatches _
      · split at step
        · cases step
          exact .reduces c.cancelAll_reduces
        · cases step

end ProxyConsole
