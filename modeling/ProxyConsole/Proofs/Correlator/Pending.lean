import ProxyConsole.Proofs.Since
import ProxyConsole.Proofs.Correlator.ExactlyOnce
import ProxyConsole.Proofs.Correlator.Sequence

/-!
# Pending calls and live handles

A call is pending exactly as long as its handle is in use and nothing has hit its
id, provided that the sequence numbers of the run have not come round.  A run takes
one number for each registration, and one more for each pending id that is passed
over; before the ids come round none is passed over.
-/

set_option autoImplicit false

namespace ProxyConsole.Correlator.Session

open ProxyConsole.Positions

/-! ## The sequence numbers of a run -/

/-- How many sequence numbers an event takes, those that a registration passes over included. -/
def takes (s : Session) : SessionEvent → Nat
  | .allocate => if s.correlator.allocate.isSome then s.correlator.passes + 1 else 0
  | _ => 0

theorem takes_eq_zero {s : Session} {event : SessionEvent} (other : event ≠ .allocate) :
    s.takes event = 0 := by
  cases event with
  | allocate => exact absurd rfl other
  | _ => rfl

/-- How many sequence numbers a run takes. -/
def taken (s : Session) : List SessionEvent → Nat
  | [] => 0
  | event :: rest => s.takes event + (s.happen event).taken rest

theorem taken_concat (s : Session) (events : List SessionEvent) (event : SessionEvent) :
    s.taken (events ++ [event]) = s.taken events + (s.run events).takes event := by
  induction events generalizing s with
  | nil => simp [taken, run]
  | cons first rest ih =>
    rw [List.cons_append, taken, taken, ih]
    exact (Nat.add_assoc _ _ _).symm

/-- The tickets given out so far. -/
def tickets (s : Session) : List Ticket :=
  s.handles.map Handle.ticket

theorem mem_tickets {s : Session} {index : Nat} {t : Ticket} {phase : HandlePhase}
    (found : s.handles[index]? = some ⟨t, phase⟩) : t ∈ s.tickets :=
  List.mem_map.mpr ⟨_, List.mem_of_getElem? found, rfl⟩

theorem tickets_set {s : Session} {index : Nat} {t : Ticket} {phase : HandlePhase}
    (found : s.handles[index]? = some ⟨t, phase⟩) (phase' : HandlePhase) :
    (s.handles.set index ⟨t, phase'⟩).map Handle.ticket = s.tickets := by
  obtain ⟨inside, own⟩ := List.getElem?_eq_some_iff.mp found
  have bound : index < (s.handles.map Handle.ticket).length := by
    rw [List.length_map]
    exact inside
  have kept := List.set_getElem_self bound
  rw [List.getElem_map, own] at kept
  rw [List.map_set]
  exact kept

theorem Turn.tickets {s s' : Session} {event : SessionEvent} (turn : Turn s event s')
    (other : event ≠ .allocate) :
    s'.tickets = s.tickets ∧ s'.correlator.nextSeq = s.correlator.nextSeq := by
  cases turn with
  | registers t c success => exact absurd rfl other
  | dispatches e =>
    refine ⟨rfl, ?_⟩
    rcases s.correlator.dispatch_cases e with ⟨same, _⟩ | ⟨t, _, _, result⟩
    · rw [same]
    · rw [result]
  | givesUp index t phase found live cause => exact ⟨tickets_set found .gone, rfl⟩
  | waits index t deadline limit found cause => exact ⟨tickets_set found _, rfl⟩
  | finishes index t deadline limit result found decided =>
    refine ⟨tickets_set found .gone, ?_⟩
    simp only [finishWait, conclude]
    split <;> rfl
  | _ => exact ⟨rfl, rfl⟩

/-- The tickets given out have different sequence numbers, all of them among the first `n`. -/
structure Numbered (s : Session) (n : Nat) : Prop where
  next : s.correlator.nextSeq = UInt64.ofNat n
  below : ∀ t ∈ s.tickets, t.seq.toNat < n
  distinct : (s.tickets.map Ticket.seq).Nodup

theorem happen_allocate_some {s : Session} {t : Ticket} {c : Correlator}
    (success : s.correlator.allocate = some (t, c)) : s.happen .allocate =
      { s with correlator := c, handles := s.handles ++ [⟨t, .held⟩] } := by
  simp only [happen, perform, Session.allocate, success]

theorem happen_allocate (s : Session) :
    (s.correlator.allocate = none ∧ s.happen .allocate = s) ∨
      ∃ t c, s.correlator.allocate = some (t, c) ∧
        s.happen .allocate = { s with correlator := c, handles := s.handles ++ [⟨t, .held⟩] } := by
  cases success : s.correlator.allocate with
  | none =>
    refine Or.inl ⟨rfl, ?_⟩
    simp only [happen, perform, Session.allocate, success]
  | some pair =>
    obtain ⟨t, c⟩ := pair
    exact Or.inr ⟨t, c, rfl, happen_allocate_some success⟩

theorem run_concat (s : Session) (events : List SessionEvent) (event : SessionEvent) :
    s.run (events ++ [event]) = (s.run events).happen event := by
  simp [run]

/-- All that a run does to the tickets and to the sequence numbers: it gives out tickets
whose numbers are different from each other and among those that the run takes. -/
structure Draws (s : Session) (events : List SessionEvent) (given : List Ticket) : Prop where
  tickets : (s.run events).tickets = s.tickets ++ given
  next : (s.run events).correlator.nextSeq =
    UInt64.ofNat (s.correlator.nextSeq.toNat + s.taken events)
  range : ∀ t ∈ given, s.correlator.nextSeq.toNat ≤ t.seq.toNat ∧
    t.seq.toNat < s.correlator.nextSeq.toNat + s.taken events
  derived : ∀ t ∈ given, t.id = RequestId.ofSequence t.seq
  distinct : (given.map Ticket.seq).Nodup

section Draws

variable {s : Session} {events : List SessionEvent} {given : List Ticket}

theorem Draws.idle (draws : s.Draws events given) {event : SessionEvent}
    (tickets : ((s.run events).happen event).tickets = (s.run events).tickets)
    (next : ((s.run events).happen event).correlator.nextSeq = (s.run events).correlator.nextSeq)
    (none : (s.run events).takes event = 0) : s.Draws (events ++ [event]) given := by
  have taken : s.taken (events ++ [event]) = s.taken events := by
    rw [taken_concat, none, Nat.add_zero]
  constructor
  · rw [run_concat, tickets]
    exact draws.tickets
  · rw [run_concat, next, taken]
    exact draws.next
  · rw [taken]
    exact draws.range
  · exact draws.derived
  · exact draws.distinct

theorem Draws.registers (draws : s.Draws events given) {t : Ticket} {c : Correlator}
    (success : (s.run events).correlator.allocate = some (t, c))
    (result : (s.run events).happen .allocate =
      { s.run events with correlator := c, handles := (s.run events).handles ++ [⟨t, .held⟩] })
    (few : s.correlator.nextSeq.toNat + s.taken (events ++ [.allocate]) ≤ UInt64.size) :
    s.Draws (events ++ [.allocate]) (given ++ [t]) := by
  have takes : (s.run events).takes .allocate = (s.run events).correlator.passes + 1 := by
    rw [takes, success, Option.isSome_some, if_pos rfl]
  rw [taken_concat, takes, ← Nat.add_assoc] at few
  obtain ⟨value, next⟩ := allocate_counted success draws.next few
  constructor
  · have new : (s.run (events ++ [.allocate])).tickets = (s.run events).tickets ++ [t] := by
      simp only [run_concat, result, Session.tickets, List.map_append, List.map_cons, List.map_nil]
    rw [new, draws.tickets, List.append_assoc]
  · rw [run_concat, result, taken_concat, takes, ← Nat.add_assoc]
    exact next
  · intro u member
    rw [taken_concat, takes]
    rcases List.mem_append.mp member with earlier | last
    · have older := draws.range u earlier
      omega
    · rw [List.mem_singleton.mp last]
      omega
  · intro u member
    rcases List.mem_append.mp member with earlier | last
    · exact draws.derived u earlier
    · rw [List.mem_singleton.mp last]
      exact (allocate_sequence success).1
  · rw [List.map_append, List.nodup_append]
    refine ⟨draws.distinct, by simp, ?_⟩
    intro seq₁ earlier seq₂ last same
    obtain ⟨u, member, rfl⟩ := List.mem_map.mp earlier
    have last : seq₂ = t.seq := by simpa using last
    have older := (draws.range u member).2
    rw [same, last] at older
    omega

theorem Draws.concat (draws : s.Draws events given) (event : SessionEvent)
    (few : s.correlator.nextSeq.toNat + s.taken (events ++ [event]) ≤ UInt64.size) :
    ∃ given', s.Draws (events ++ [event]) given' := by
  by_cases registers : event = .allocate
  · subst registers
    rcases (s.run events).happen_allocate with ⟨full, same⟩ | ⟨t, c, success, result⟩
    · have none : (s.run events).takes .allocate = 0 := by rw [takes, full]; rfl
      exact ⟨given, draws.idle (by rw [same]) (by rw [same]) none⟩
    · exact ⟨given ++ [t], draws.registers success result few⟩
  · obtain ⟨tickets, next⟩ := ((s.run events).happen_turn event).tickets registers
    exact ⟨given, draws.idle tickets next (takes_eq_zero registers)⟩

end Draws

/-- What a run gives out, from any session, as long as the sequence numbers do not come round. -/
theorem run_draws (s : Session) (events : List SessionEvent)
    (few : s.correlator.nextSeq.toNat + s.taken events ≤ UInt64.size) :
    ∃ given, s.Draws events given := by
  induction events using List.reverseRecOn with
  | nil =>
    refine ⟨[], (List.append_nil _).symm, ?_, by simp, by simp, by simp⟩
    exact UInt64.ofNat_toNat.symm
  | append_singleton events event ih =>
    have shorter := few
    rw [taken_concat] at shorter
    obtain ⟨given, draws⟩ := ih (by omega)
    exact draws.concat event few

theorem numbered_after (events : List SessionEvent) (few : taken {} events ≤ UInt64.size) :
    (after events).Numbered (taken {} events) := by
  have start : ({} : Session).correlator.nextSeq.toNat = 0 := rfl
  obtain ⟨given, draws⟩ := run_draws {} events (by omega)
  have tickets : (after events).tickets = given := draws.tickets
  have next := draws.next
  have range := draws.range
  rw [start, Nat.zero_add] at next range
  constructor
  · exact next
  · rw [tickets]
    exact fun t member => (range t member).2
  · rw [tickets]
    exact draws.distinct

theorem Numbered.eq_of_seq {s : Session} {n : Nat} (numbered : s.Numbered n) {t u : Ticket}
    (left : t ∈ s.tickets) (right : u ∈ s.tickets) (same : t.seq = u.seq) : t = u :=
  List.inj_on_of_nodup_map numbered.distinct left right same

/-! ## What keeps a call pending -/

/-- An event hits the calls with an id. -/
def Hits (id : RequestId) : SessionEvent → Prop
  | .dispatch e => e.requestId = id
  | .cancel other => other = id
  | .cancelAll => True
  | _ => False

/-- Since the handle at an index was registered, nothing has hit the given id. -/
def Untouched (events : List SessionEvent) (index : Nat) (id : RequestId) : Prop :=
  Since (fun before event => event = .allocate ∧ Registers before index)
    (fun _ event => ¬ Hits id event) events

theorem mem_release {c : Correlator} {t u : Ticket} (member : u ∈ c.pending)
    (other : ¬ (u.id = t.id ∧ u.seq = t.seq)) : u ∈ (c.release t).pending :=
  List.mem_filter.mpr ⟨member, decide_eq_true other⟩

theorem mem_conclude_pending {c : Correlator} {t u : Ticket} (member : u ∈ c.pending)
    (other : ¬ (u.id = t.id ∧ u.seq = t.seq)) : u ∈ (c.conclude t).pending := by
  unfold conclude
  split
  · exact mem_release member other
  · exact member

theorem Coherent.pending_before {s : Session} (coherent : s.Coherent) {event : SessionEvent}
    {t : Ticket} (member : t ∈ (s.happen event).correlator.pending) :
    (t ∈ s.correlator.pending ∧ ¬ Hits t.id event) ∨
      (event = .allocate ∧ t.serial = s.handles.length ∧
        (s.happen event).handles.length = s.handles.length + 1) := by
  rcases (s.happen_turn event).pending_cases coherent member with ⟨earlier, answered⟩ | registered
  · refine Or.inl ⟨earlier, ?_⟩
    cases event with
    | dispatch e => exact answered e rfl
    | cancel id =>
      intro hit
      have kept := (List.mem_filter.mp member).2
      simp only [ne_eq, decide_eq_true_eq] at kept
      exact kept hit.symm
    | cancelAll => cases member
    | _ => exact id
  · exact Or.inr registered

/-- As long as ids do not come round, a run takes one sequence number for each registration. -/
theorem taken_eq_registered (events : List SessionEvent)
    (few : (after events).correlator.registered ≤ RequestId.count) :
    (after events).correlator.Unwrapped ∧
      taken {} events = (after events).correlator.registered := by
  induction events using List.reverseRecOn with
  | nil => exact ⟨unwrapped_empty, rfl⟩
  | append_singleton events event ih =>
    have coherent := coherent_after events
    rw [taken_concat]
    rw [after_concat] at few ⊢
    by_cases registers : event = .allocate
    · subst registers
      rcases (after events).happen_allocate with ⟨full, same⟩ | ⟨t, c, success, result⟩
      · rw [same] at few ⊢
        rw [← after, takes, full]
        exact ih few
      · obtain ⟨_, _, _, _, registered⟩ := allocate_cases success
        have longer : ((after events).happen .allocate).correlator.registered =
            (after events).correlator.registered + 1 := by rw [result]; exact registered
        rw [longer] at few ⊢
        obtain ⟨unwrapped, one⟩ := ih (by omega)
        obtain ⟨u, c', allocated, _, unwrapped'⟩ :=
          unwrapped.allocate coherent.wellFormed (by omega)
        rw [success] at allocated
        cases allocated
        refine ⟨by rw [result]; exact unwrapped', ?_⟩
        rw [one, ← after, takes, success,
          unwrapped.passes_eq_zero coherent.wellFormed (by omega)]
        rfl
    · have coherent' := coherent.happen event
      obtain ⟨given, next⟩ := ((after events).happen_turn event).tickets registers
      have registered : ((after events).happen event).correlator.registered =
          (after events).correlator.registered := by
        have lengths := congrArg List.length given
        simp only [Session.tickets, List.length_map] at lengths
        rw [coherent'.registered, coherent.registered, lengths]
      have none : (after events).takes event = 0 := takes_eq_zero registers
      rw [registered] at few
      obtain ⟨unwrapped, one⟩ := ih few
      refine ⟨unwrapped.of_pending next registered ?_, ?_⟩
      · intro t member
        rcases coherent.pending_before member with ⟨earlier, _⟩ | ⟨allocates, _⟩
        · exact earlier
        · exact absurd allocates registers
      · rw [← after, none, registered, one, Nat.add_zero]

theorem Turn.holds {s s' : Session} {event : SessionEvent} (turn : Turn s event s') {t : Ticket}
    (holds : s'.Holds t) : s.Holds t ∨ t ∈ s'.correlator.pending := by
  have replaced : ∀ {index : Nat} {u : Ticket} {phase phase' : HandlePhase},
      s.handles[index]? = some ⟨u, phase⟩ → phase ≠ .gone →
      (∃ phase'', (s.handles.set index ⟨u, phase'⟩)[t.serial]? = some ⟨t, phase''⟩ ∧
        phase'' ≠ .gone) → s.Holds t := by
    intro index u phase phase' found live ⟨phase'', at_, live''⟩
    rcases getElem?_set_cases at_ with ⟨same, new⟩ | ⟨_, earlier⟩
    · cases new
      exact ⟨phase, by rw [same]; exact found, live⟩
    · exact ⟨phase'', earlier, live''⟩
  cases turn with
  | registers u c success =>
    obtain ⟨_, _, pending, _, _⟩ := allocate_cases success
    obtain ⟨phase, at_, live⟩ := holds
    rcases getElem?_concat_cases at_ with earlier | ⟨_, new⟩
    · exact Or.inl ⟨phase, earlier, live⟩
    · cases new
      refine Or.inr ?_
      simp [pending]
  | givesUp index u phase found live cause => exact Or.inl (replaced found live holds)
  | waits index u deadline limit found cause => exact Or.inl (replaced found (by simp) holds)
  | finishes index u deadline limit result found decided =>
    exact Or.inl (replaced found (by simp) holds)
  | _ => exact Or.inl holds

/-- A call stays pending if it is not hit and its handle stays in use: no other handle takes
it away. -/
theorem Turn.pending_kept {s s' : Session} {event : SessionEvent} (turn : Turn s event s')
    (coherent : s.Coherent) {n : Nat} (numbered : s.Numbered n) {t : Ticket}
    (member : t ∈ s.correlator.pending) (spared : ¬ Hits t.id event) (holds : s'.Holds t) :
    t ∈ s'.correlator.pending := by
  obtain ⟨current, own, _⟩ := coherent.pending_held t member
  have different : ∀ {index : Nat} {u : Ticket} {phase : HandlePhase},
      s.handles[index]? = some ⟨u, phase⟩ →
      (∃ phase', (s.handles.set index ⟨u, .gone⟩)[t.serial]? = some ⟨t, phase'⟩ ∧
        phase' ≠ .gone) → ¬ (t.id = u.id ∧ t.seq = u.seq) := by
    intro index u phase found ⟨phase', at_, live'⟩ ⟨_, same⟩
    obtain rfl := numbered.eq_of_seq (mem_tickets own) (mem_tickets found) same
    have place : t.serial = index := coherent.same_place own found
    rw [place, getElem?_set_of_some _ found] at at_
    cases at_
    exact live' rfl
  cases turn with
  | idle quiet => exact member
  | registers u c success =>
    obtain ⟨_, _, pending, _, _⟩ := allocate_cases success
    simp only [pending]
    exact List.mem_append_left _ member
  | dispatches e =>
    rcases s.correlator.dispatch_cases e with ⟨same, _⟩ | ⟨u, _, id, result⟩
    · rw [same]
      exact member
    · rw [result]
      refine List.mem_filter.mpr ⟨member, ?_⟩
      have other : t ≠ u := by
        rintro rfl
        exact spared id.symm
      simpa using other
  | cancels id =>
    have other : t.id ≠ id := fun same => spared same.symm
    exact List.mem_filter.mpr ⟨member, by simpa using other⟩
  | cancelsAll => exact absurd trivial spared
  | givesUp index u phase found live cause => exact mem_release member (different found holds)
  | waits index u deadline limit found cause => exact member
  | finishes index u deadline limit result found decided =>
    exact mem_conclude_pending member (different found holds)
  | passes moment => exact member

theorem pending_iff (events : List SessionEvent) (few : taken {} events ≤ UInt64.size)
    (t : Ticket) :
    t ∈ (after events).correlator.pending ↔
      (after events).Holds t ∧ Untouched events t.serial t.id := by
  induction events using List.reverseRecOn with
  | nil =>
    constructor
    · intro member
      cases member
    · rintro ⟨_, untouched⟩
      exact absurd untouched Since.not_nil
  | append_singleton events event ih =>
    rw [taken_concat] at few
    have earlier := ih (by omega)
    have coherent := coherent_after events
    have numbered := numbered_after events (by omega)
    have turn := (after events).happen_turn event
    have coherent' := coherent.happen event
    rw [after_concat, Untouched, Since.concat_iff]
    constructor
    · intro member
      refine ⟨coherent'.pending_held t member, ?_⟩
      rcases coherent.pending_before member with ⟨before, spared⟩ | ⟨rfl, serial, longer⟩
      · exact Or.inr ⟨(earlier.mp before).2, spared⟩
      · refine Or.inl ⟨rfl, serial.symm, ?_⟩
        rw [after_concat, longer, serial]
    · rintro ⟨holds, history⟩
      rcases turn.holds holds with held | member
      · rcases history with ⟨_, registers⟩ | ⟨untouched, spared⟩
        · obtain ⟨phase, found, _⟩ := held
          have inside := (List.getElem?_eq_some_iff.mp found).1
          have last := registers.1
          omega
        · exact turn.pending_kept coherent numbered (earlier.mpr ⟨held, untouched⟩) spared holds
      · exact member

end ProxyConsole.Correlator.Session
