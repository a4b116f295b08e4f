import ProxyConsole.Proofs.Correlator.Schedule
import ProxyConsole.Proofs.Positions

/-!
# Handles and their calls

In every session that any schedule reaches, a handle's place in the list is the number
of its registration.  Each pending call and each kept response belongs to a handle that
is still in use, and a handle whose wait is over is gone.
-/

set_option autoImplicit false

namespace ProxyConsole.Correlator.Session

open ProxyConsole.Positions

/-- A ticket belongs to a handle that is not gone. -/
def Holds (s : Session) (t : Ticket) : Prop :=
  ∃ phase, s.handles[t.serial]? = some ⟨t, phase⟩ ∧ phase ≠ .gone

/-- What ties the handles of a session to its correlator. -/
structure Coherent (s : Session) : Prop where
  wellFormed : s.correlator.WellFormed
  registered : s.correlator.registered = s.handles.length
  serial : ∀ (i : Nat) (h : Handle), s.handles[i]? = some h → h.ticket.serial = i
  pending_held : ∀ t ∈ s.correlator.pending, s.Holds t
  delivered_held : ∀ d ∈ s.correlator.delivered, s.Holds d.1
  finished_gone : ∀ f ∈ s.finished, ∃ t, s.handles[f.handle]? = some ⟨t, .gone⟩
  finished_nodup : (s.finished.map Finished.handle).Nodup

theorem coherent_start : Coherent {} := by
  refine ⟨wellFormed_empty, rfl, ?_, ?_, ?_, ?_, ?_⟩ <;> simp

theorem Coherent.same_place {s : Session} (coherent : s.Coherent) {i j : Nat} {t : Ticket}
    {phase phase' : HandlePhase} (left : s.handles[i]? = some ⟨t, phase⟩)
    (right : s.handles[j]? = some ⟨t, phase'⟩) : i = j := by
  have first : t.serial = i := coherent.serial i _ left
  have second : t.serial = j := coherent.serial j _ right
  exact first.symm.trans second

/-- A change of the correlator that only takes away, or that moves pending calls to the
delivered ones, keeps the handles tied to it. -/
theorem Coherent.withCorrelator {s : Session} (coherent : s.Coherent) {c : Correlator}
    (wellFormed : c.WellFormed) (registered : c.registered = s.correlator.registered)
    (pending : ∀ t ∈ c.pending, t ∈ s.correlator.pending)
    (delivered : ∀ d ∈ c.delivered, d ∈ s.correlator.delivered ∨ d.1 ∈ s.correlator.pending) :
    Coherent { s with correlator := c } where
  wellFormed := wellFormed
  registered := registered.trans coherent.registered
  serial := coherent.serial
  pending_held t member := coherent.pending_held t (pending t member)
  delivered_held := by
    intro d member
    rcases delivered d member with earlier | moved
    · exact coherent.delivered_held d earlier
    · exact coherent.pending_held d.1 moved
  finished_gone := coherent.finished_gone
  finished_nodup := coherent.finished_nodup

theorem Coherent.reduce {s : Session} (coherent : s.Coherent) {c : Correlator}
    (reduces : s.correlator.Reduces c) : Coherent { s with correlator := c } :=
  coherent.withCorrelator (reduces.wellFormed coherent.wellFormed) reduces.registered
    (fun _ member => reduces.pending.subset member)
    (fun _ member => Or.inl (reduces.delivered.subset member))

theorem Coherent.dispatch {s : Session} (coherent : s.Coherent) (e : InboundEnvelope) :
    Coherent { s with correlator := (s.correlator.dispatch e).2 } := by
  have wellFormed := coherent.wellFormed.dispatch e
  rcases s.correlator.dispatch_cases e with ⟨same, _⟩ | ⟨t, member, _, result⟩
  · rw [same]
    exact coherent
  · rw [result] at wellFormed ⊢
    refine coherent.withCorrelator wellFormed rfl (fun p kept => List.mem_of_mem_filter kept) ?_
    intro d delivered
    rcases List.mem_append.mp delivered with earlier | last
    · exact Or.inl earlier
    · rw [List.mem_singleton.mp last]
      exact Or.inr member

theorem Coherent.register {s : Session} (coherent : s.Coherent) {t : Ticket} {c : Correlator}
    (success : s.correlator.allocate = some (t, c)) :
    Coherent { s with correlator := c, handles := s.handles ++ [⟨t, .held⟩] } := by
  obtain ⟨serial, _, pending, delivered, registered⟩ := allocate_cases success
  have last : t.serial = s.handles.length := serial.trans coherent.registered
  refine ⟨coherent.wellFormed.allocate success, ?_, ?_, ?_, ?_, ?_, coherent.finished_nodup⟩
  · simp [registered, coherent.registered]
  · intro i h found
    rcases getElem?_concat_cases found with earlier | ⟨position, same⟩
    · exact coherent.serial i h earlier
    · rw [same, position]
      exact last
  · intro u member
    rw [pending, List.mem_append, List.mem_singleton] at member
    rcases member with earlier | rfl
    · obtain ⟨phase, found, live⟩ := coherent.pending_held u earlier
      exact ⟨phase, getElem?_concat_of_some _ found, live⟩
    · exact ⟨.held, by simp [last], by simp⟩
  · intro d member
    rw [delivered] at member
    obtain ⟨phase, found, live⟩ := coherent.delivered_held d member
    exact ⟨phase, getElem?_concat_of_some _ found, live⟩
  · intro f member
    obtain ⟨u, found⟩ := coherent.finished_gone f member
    exact ⟨u, getElem?_concat_of_some _ found⟩

theorem Coherent.rephase {s : Session} (coherent : s.Coherent) {index : Nat} {t : Ticket}
    {phase phase' : HandlePhase} (found : s.handles[index]? = some ⟨t, phase⟩)
    (live : phase ≠ .gone) (live' : phase' ≠ .gone) : (s.setPhase index t phase').Coherent := by
  have holds : ∀ u, s.Holds u → (s.setPhase index t phase').Holds u := by
    intro u ⟨current, at_, alive⟩
    by_cases same : u.serial = index
    · rw [same, found] at at_
      cases at_
      exact ⟨phase', by rw [same]; exact getElem?_set_of_some _ found, live'⟩
    · refine ⟨current, ?_, alive⟩
      simpa only [setPhase, List.getElem?_set_ne (Ne.symm same)] using at_
  refine ⟨coherent.wellFormed, ?_, ?_, ?_, ?_, ?_, coherent.finished_nodup⟩
  · simpa only [setPhase, List.length_set] using coherent.registered
  · intro i h at_
    rcases getElem?_set_cases at_ with ⟨same, new⟩ | ⟨_, earlier⟩
    · have own : t.serial = index := coherent.serial index _ found
      rw [new, same]
      exact own
    · exact coherent.serial i h earlier
  · intro u member
    exact holds u (coherent.pending_held u member)
  · intro d member
    exact holds d.1 (coherent.delivered_held d member)
  · intro f member
    obtain ⟨u, gone⟩ := coherent.finished_gone f member
    have other : f.handle ≠ index := by
      intro same
      rw [same, found] at gone
      cases gone
      exact live rfl
    exact ⟨u, by simpa only [setPhase, List.getElem?_set_ne (Ne.symm other)] using gone⟩

theorem Coherent.retire {s : Session} (coherent : s.Coherent) {index : Nat} {t : Ticket}
    {phase : HandlePhase} (found : s.handles[index]? = some ⟨t, phase⟩) {c : Correlator}
    (reduces : s.correlator.Reduces c) (notPending : t ∉ c.pending)
    (notDelivered : ∀ e, (t, e) ∉ c.delivered) :
    Coherent { s with correlator := c, handles := s.handles.set index ⟨t, .gone⟩ } := by
  have reduced := coherent.reduce reduces
  have holds : ∀ u, s.Holds u → u ≠ t →
      Holds { s with correlator := c, handles := s.handles.set index ⟨t, .gone⟩ } u := by
    intro u ⟨current, at_, alive⟩ different
    have other : u.serial ≠ index := by
      intro same
      rw [same, found] at at_
      cases at_
      exact different rfl
    exact ⟨current, by simpa only [List.getElem?_set_ne (Ne.symm other)] using at_, alive⟩
  refine ⟨reduced.wellFormed, ?_, ?_, ?_, ?_, ?_, coherent.finished_nodup⟩
  · simpa only [List.length_set] using reduced.registered
  · intro i h at_
    rcases getElem?_set_cases at_ with ⟨same, new⟩ | ⟨_, earlier⟩
    · have own : t.serial = index := coherent.serial index _ found
      rw [new, same]
      exact own
    · exact coherent.serial i h earlier
  · intro u member
    refine holds u (reduced.pending_held u member) ?_
    rintro rfl
    exact notPending member
  · intro d member
    refine holds d.1 (reduced.delivered_held d member) ?_
    rintro same
    exact notDelivered d.2 (same ▸ member)
  · intro f member
    obtain ⟨u, gone⟩ := coherent.finished_gone f member
    by_cases same : f.handle = index
    · exact ⟨t, by rw [same]; exact getElem?_set_of_some _ found⟩
    · exact ⟨u, by simpa only [List.getElem?_set_ne (Ne.symm same)] using gone⟩

theorem Coherent.giveUp {s : Session} (coherent : s.Coherent) {index : Nat} {t : Ticket}
    {phase : HandlePhase} (found : s.handles[index]? = some ⟨t, phase⟩) :
    (s.giveUp index t).Coherent :=
  coherent.retire found (s.correlator.release_reduces t) (s.correlator.release_forgets t).1
    (s.correlator.release_forgets t).2

theorem Coherent.finishWait {s : Session} (coherent : s.Coherent) {index : Nat} {t : Ticket}
    {deadline : Option Nat} {limit : Duration}
    (found : s.handles[index]? = some ⟨t, .waiting deadline limit⟩)
    (result : Except WaitError InboundEnvelope) : (s.finishWait index t result).Coherent := by
  obtain ⟨notPending, notDelivered⟩ := conclude_forgets coherent.wellFormed t
  have retired := coherent.retire found (s.correlator.conclude_reduces t) notPending notDelivered
  refine ⟨retired.wellFormed, retired.registered, retired.serial, retired.pending_held,
    retired.delivered_held, ?_, ?_⟩
  · intro f member
    rcases List.mem_append.mp member with earlier | last
    · exact retired.finished_gone f earlier
    · rw [List.mem_singleton.mp last]
      exact ⟨t, getElem?_set_of_some _ found⟩
  · simp only [Session.finishWait, List.map_append, List.nodup_append]
    refine ⟨coherent.finished_nodup, by simp, ?_⟩
    intro i earlier j last same
    obtain ⟨f, member, rfl⟩ := List.mem_map.mp earlier
    have last : j = index := by simpa using last
    obtain ⟨u, gone⟩ := coherent.finished_gone f member
    rw [same, last, found] at gone
    cases gone

theorem Turn.coherent {s s' : Session} {event : SessionEvent} (turn : Turn s event s')
    (coherent : s.Coherent) : s'.Coherent := by
  cases turn with
  | idle quiet => exact coherent
  | registers t c success => exact coherent.register success
  | dispatches e => exact coherent.dispatch e
  | cancels id => exact coherent.reduce (s.correlator.cancel_reduces id)
  | cancelsAll => exact coherent.reduce s.correlator.cancelAll_reduces
  | givesUp index t phase found live cause => exact coherent.giveUp found
  | waits index t deadline limit found cause => exact coherent.rephase found (by simp) (by simp)
  | finishes index t deadline limit result found decided => exact coherent.finishWait found result
  | passes moment =>
    exact ⟨coherent.wellFormed, coherent.registered, coherent.serial, coherent.pending_held,
      coherent.delivered_held, coherent.finished_gone, coherent.finished_nodup⟩

theorem Coherent.happen {s : Session} (coherent : s.Coherent) (event : SessionEvent) :
    (s.happen event).Coherent :=
  (s.happen_turn event).coherent coherent

theorem Coherent.run {s : Session} (coherent : s.Coherent) (events : List SessionEvent) :
    (s.run events).Coherent := by
  induction events generalizing s with
  | nil => exact coherent
  | cons event rest ih => exact ih (coherent.happen event)

theorem coherent_after (events : List SessionEvent) : (after events).Coherent :=
  coherent_start.run events

end ProxyConsole.Correlator.Session
