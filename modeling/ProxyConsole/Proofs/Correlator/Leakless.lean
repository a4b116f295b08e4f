import Mathlib.Data.Set.Card
import ProxyConsole.Proofs.Correlator.Pending

/-!
# No leaks and no foreign removals

Giving a handle up removes the pending call with its id and its sequence number.  As
long as the sequence numbers of a run have not come round, this is the call that was
registered with the handle, and no call of a handle that is gone is left behind.

The bound is on sequence numbers and not on registrations, since a registration also
takes the numbers whose ids are pending.  With one call kept pending for a whole round
there is a run of fewer than `2 ^ 64` registrations in which a handle gives up the call
of another one.
-/

set_option autoImplicit false

namespace ProxyConsole.Correlator.Session

open ProxyConsole.Positions

/-- An event drops a handle, gives its wait up, or lets the wait look whether its time
is over. -/
def Concerns (index : Nat) (event : SessionEvent) : Prop :=
  event = .drop index ∨ event = .abort index ∨ event = .look index

/-- The pending call that the end of a handle removes has its id and sequence number. -/
theorem Turn.removes {s s' : Session} {event : SessionEvent} (turn : Turn s event s')
    {index : Nat} (concerns : Concerns index event) {t : Ticket}
    (member : t ∈ s.correlator.pending) (removed : t ∉ s'.correlator.pending) :
    ∃ u phase, s.handles[index]? = some ⟨u, phase⟩ ∧ t.id = u.id ∧ t.seq = u.seq := by
  cases turn with
  | givesUp i u phase found live cause =>
    have place : i = index := by
      rcases cause with same | same <;> rcases concerns with rfl | rfl | rfl <;>
        cases same <;> rfl
    refine ⟨u, phase, place ▸ found, ?_⟩
    by_contra other
    exact removed (mem_release member other)
  | finishes i u deadline limit result found decided =>
    have place : i = index := by
      rcases concerns with same | same | same <;> cases same
      rfl
    refine ⟨u, _, place ▸ found, ?_⟩
    by_contra other
    exact removed (mem_conclude_pending member other)
  | idle quiet => exact absurd member removed
  | waits i u deadline limit found cause => exact absurd member removed
  | passes moment => exact absurd member removed
  | registers u c success => rcases concerns with same | same | same <;> cases same
  | dispatches e => rcases concerns with same | same | same <;> cases same
  | cancels id => rcases concerns with same | same | same <;> cases same
  | cancelsAll => rcases concerns with same | same | same <;> cases same

/-- The handle at an index is in use and nothing has hit its id since it was registered. -/
def Open (events : List SessionEvent) (index : Nat) : Prop :=
  ∃ t, t.serial = index ∧ (after events).Holds t ∧ Untouched events index t.id

/-- The pending calls after a run are those of the open handles, provided that its
sequence numbers are `apart`. -/
structure Leakless (events : List SessionEvent) (apart : Prop) : Prop where
  ids : ((after events).correlator.pending.map Ticket.id).Nodup
  pending : apart → ∀ t, t ∈ (after events).correlator.pending ↔
    (after events).Holds t ∧ Untouched events t.serial t.id
  count : apart →
    (after events).correlator.pendingCount = {index | Open events index}.ncard
  none : (∀ h ∈ (after events).handles, h.phase = .gone) →
    (after events).correlator.pendingCount = 0
  /-- The end of a handle removes at most the call that was registered with it. -/
  own : apart → ∀ index event, Concerns index event →
    ∀ t ∈ (after events).correlator.pending,
      t ∉ ((after events).happen event).correlator.pending → t.serial = index
  /-- In any case it removes at most the call with its id and its sequence number. -/
  alike : ∀ index event, Concerns index event →
    ∀ t ∈ (after events).correlator.pending,
      t ∉ ((after events).happen event).correlator.pending →
      ∃ u phase, (after events).handles[index]? = some ⟨u, phase⟩ ∧
        t.id = u.id ∧ t.seq = u.seq
  receiver : ∀ e, ((after events).perform (.dispatch e)).1 = .flag true →
    ∃ index, (after events).IsPending index e.requestId ∧
      ((after events).happen (.dispatch e)).Keeps index e

theorem pendingCount_eq {events : List SessionEvent} (few : taken {} events ≤ UInt64.size) :
    (after events).correlator.pendingCount = {index | Open events index}.ncard := by
  have coherent := coherent_after events
  have distinct : (after events).correlator.pending.Nodup :=
    List.Nodup.of_map _ coherent.wellFormed.ids_nodup
  have opens : {index | Open events index} =
      Ticket.serial '' ((after events).correlator.pending.toFinset : Set Ticket) := by
    ext index
    simp only [Set.mem_ofPred_eq, Set.mem_image, Finset.mem_coe, List.mem_toFinset,
      pending_iff events few, Open]
    constructor
    · rintro ⟨t, rfl, holds, untouched⟩
      exact ⟨t, ⟨holds, untouched⟩, rfl⟩
    · rintro ⟨t, ⟨holds, untouched⟩, rfl⟩
      exact ⟨t, rfl, holds, untouched⟩
  have separate : Set.InjOn Ticket.serial
      ((after events).correlator.pending.toFinset : Set Ticket) := by
    intro t left u right same
    rw [Finset.mem_coe, List.mem_toFinset] at left right
    obtain ⟨phase, found, _⟩ := coherent.pending_held t left
    obtain ⟨phase', found', _⟩ := coherent.pending_held u right
    rw [same, found'] at found
    cases found
    rfl
  rw [opens, separate.ncard_image, Set.ncard_coe_finset,
    List.toFinset_card_of_nodup distinct, pendingCount]

theorem removes_own {events : List SessionEvent} (few : taken {} events ≤ UInt64.size)
    {index : Nat} {event : SessionEvent} (concerns : Concerns index event) {t : Ticket}
    (member : t ∈ (after events).correlator.pending)
    (removed : t ∉ ((after events).happen event).correlator.pending) : t.serial = index := by
  have coherent := coherent_after events
  obtain ⟨_, own, _⟩ := coherent.pending_held t member
  obtain ⟨u, phase, found, _, same⟩ :=
    ((after events).happen_turn event).removes concerns member removed
  obtain rfl := (numbered_after events few).eq_of_seq (mem_tickets own) (mem_tickets found) same
  exact coherent.same_place own found

/-- No pending call is leaked and none is removed by a foreign handle, as long as the
sequence numbers do not come round; a run that registers no more calls than there are
ids takes as many numbers as it registers calls. -/
theorem leakless_after (events : List SessionEvent) :
    Leakless events (taken {} events ≤ UInt64.size ∨
      (after events).correlator.registered ≤ RequestId.count) := by
  have coherent := coherent_after events
  have few : taken {} events ≤ UInt64.size ∨
      (after events).correlator.registered ≤ RequestId.count →
      taken {} events ≤ UInt64.size := by
    rintro (few | few)
    · exact few
    · rw [(taken_eq_registered events few).2]
      exact Nat.le_trans few (by decide)
  constructor
  · exact coherent.wellFormed.ids_nodup
  · exact fun apart => pending_iff events (few apart)
  · exact fun apart => pendingCount_eq (few apart)
  · intro gone
    rw [pendingCount, List.length_eq_zero_iff, List.eq_nil_iff_forall_not_mem]
    intro t member
    obtain ⟨phase, found, live⟩ := coherent.pending_held t member
    exact live (gone _ (List.mem_of_getElem? found))
  · intro apart index event concerns t member removed
    exact removes_own (few apart) concerns member removed
  · intro index event concerns t member removed
    exact ((after events).happen_turn event).removes concerns member removed
  · intro e accepted
    obtain ⟨index, pending⟩ := (dispatch_flag coherent e).mp accepted
    exact ⟨index, pending, dispatch_keeps coherent pending⟩

/-- A call that has timed out is answered too late, while another one is still pending:
that one alone is counted. -/
theorem leakless_after_timeout :
    let events : List SessionEvent :=
      [.allocate, .allocate, .waitTimeout 0 5, .pass 5, .look 0, .dispatch (.ok ⟨1⟩ "")]
    (after events).correlator.registered ≤ RequestId.count ∧
      {index | Open events index}.ncard = 1 := by
  intro events
  have few : (after events).correlator.registered ≤ RequestId.count := by decide
  exact ⟨few, ((leakless_after events).count (Or.inr few)).symm⟩

/-! ## Once around -/

theorem round_kept {s : Session} (coherent : s.Coherent) {t : Ticket} {c : Correlator}
    (success : s.correlator.allocate = some (t, c)) {s' : Session}
    (round : (s.happen .allocate).happen (.drop s.correlator.registered) = s') :
    s'.correlator.pending = s.correlator.pending ∧ s'.correlator.nextSeq = t.seq + 1 ∧
      s'.correlator.registered = s.correlator.registered + 1 ∧
      ∀ i < s.handles.length, s'.handles[i]? = s.handles[i]? := by
  obtain ⟨_, fresh, pending, _, registered⟩ := allocate_cases success
  obtain ⟨_, _, next⟩ := allocate_sequence success
  have allocated := happen_allocate_some success
  have found : (s.handles ++ [⟨t, .held⟩])[s.handles.length]? = some ⟨t, .held⟩ := by simp
  rw [allocated, coherent.registered] at round
  simp only [happen, perform, useHandle, found] at round
  subst round
  refine ⟨?_, next, registered, ?_⟩
  · show c.pending.filter _ = _
    rw [pending, List.filter_append, List.filter_eq_self.mpr]
    · simp
    · intro p member
      simp [fresh p member]
  · intro i inside
    show ((s.handles ++ _).set _ _)[i]? = _
    rw [List.getElem?_set_ne (by omega), List.getElem?_append_left inside]

/-- Calls that are registered and given up at once, as the third handle and those after
it. -/
def rounds : Nat → List SessionEvent
  | 0 => []
  | r + 1 => rounds r ++ [.allocate, .drop (r + 2)]

/-- Two calls are registered and the first is cancelled while its handle stays in use;
the second stays pending throughout. -/
def around (r : Nat) : List SessionEvent :=
  [.allocate, .allocate, .cancel ⟨1⟩] ++ rounds r

/-- The next sequence number after some rounds.  Each time the ids come round, one
number is passed over, that of the second call's id. -/
def numberAfter (r : Nat) : Nat :=
  r + 2 + (r - 1) / (RequestId.count - 1)

/-- The first handle is in use with a call that was cancelled, the second call is
pending, and every later handle is gone. -/
structure Around (s : Session) (r : Nat) : Prop where
  first : s.handles[0]? = some ⟨⟨⟨1⟩, 0, 0⟩, .held⟩
  pending : s.correlator.pending = [⟨⟨2⟩, 1, 1⟩]
  next : s.correlator.nextSeq = UInt64.ofNat (numberAfter r)
  registered : s.correlator.registered = r + 2

theorem numberAfter_succ (r : Nat) :
    (numberAfter r % RequestId.count = 1 ∧ numberAfter (r + 1) = numberAfter r + 2 ∧
      (numberAfter r + 1) % RequestId.count ≠ 1) ∨
    (numberAfter r % RequestId.count ≠ 1 ∧ numberAfter (r + 1) = numberAfter r + 1) := by
  unfold numberAfter RequestId.count
  omega

section Around

variable {s : Session} {r : Nat}

theorem Around.contains_iff (state : s.Around r) {n : Nat} (small : n < UInt64.size) :
    s.correlator.contains (RequestId.ofSequence (UInt64.ofNat n)) = true ↔
      n % RequestId.count = 1 := by
  have two : (RequestId.mk 2).val.toNat = 2 := rfl
  simp only [contains, state.pending, List.any_cons, List.any_nil, Bool.or_false,
    decide_eq_true_eq]
  rw [RequestId.eq_iff_toNat, RequestId.ofSequence_toNat, UInt64.toNat_ofNat_of_lt' small, two]
  omega

theorem Around.finds (state : s.Around r) (few : numberAfter (r + 1) ≤ UInt64.size) :
    s.correlator.freeSeq? s.correlator.nextSeq (2 * s.correlator.pending.length + 1) =
      some (UInt64.ofNat (numberAfter (r + 1) - 1)) := by
  have tries : 2 * s.correlator.pending.length + 1 = 3 := by rw [state.pending]; rfl
  rw [tries, state.next, Correlator.freeSeq?]
  rcases numberAfter_succ r with ⟨taken, next, free⟩ | ⟨free, next⟩
  · have isTaken := (state.contains_iff (by omega)).mpr taken
    have isFree : ¬ _ := fun held => free ((state.contains_iff (by omega)).mp held)
    rw [if_pos isTaken, ← UInt64.ofNat_one, ← UInt64.ofNat_add, Correlator.freeSeq?,
      if_neg isFree, next]
    rfl
  · have isFree : ¬ _ := fun held => free ((state.contains_iff (by omega)).mp held)
    rw [if_neg isFree, next]
    rfl

theorem Around.round (state : s.Around r) (coherent : s.Coherent)
    (few : numberAfter (r + 1) ≤ UInt64.size) :
    ((s.happen .allocate).happen (.drop (r + 2))).Around (r + 1) := by
  obtain ⟨t, c, success, seq⟩ := allocate_of_found (state.finds few)
  have inside : 0 < s.handles.length := (List.getElem?_eq_some_iff.mp state.first).1
  obtain ⟨pending, next, registered, kept⟩ := round_kept coherent success rfl
  rw [state.registered] at pending next registered kept
  constructor
  · rw [kept 0 inside, state.first]
  · rw [pending, state.pending]
  · have later : 0 < numberAfter (r + 1) := by
      unfold numberAfter RequestId.count
      omega
    rw [next, seq, ← UInt64.ofNat_one, ← UInt64.ofNat_add, Nat.sub_add_cancel later]
  · rw [registered]

/-- Once the counter starts again, a new call has the id and the sequence number of the
first handle, and dropping that handle removes it. -/
theorem Around.foreign (state : s.Around r) (again : numberAfter r = UInt64.size) :
    (s.happen .allocate).correlator.registered = r + 3 ∧
      ∃ t ∈ (s.happen .allocate).correlator.pending, t.serial = r + 2 ∧
        t ∉ ((s.happen .allocate).happen (.drop 0)).correlator.pending := by
  have start : s.correlator.nextSeq = UInt64.ofNat 0 := by
    rw [state.next, again]
    rfl
  have free : ¬ s.correlator.contains (RequestId.ofSequence (UInt64.ofNat 0)) = true :=
    fun taken => absurd ((state.contains_iff (by decide)).mp taken) (by decide)
  have found : s.correlator.freeSeq? s.correlator.nextSeq
      (2 * s.correlator.pending.length + 1) = some 0 := by
    rw [start, Correlator.freeSeq?, if_neg free]
    rfl
  obtain ⟨t, c, success, seq⟩ := allocate_of_found found
  obtain ⟨serial, _, pending, _, registered⟩ := allocate_cases success
  have id : t.id = ⟨1⟩ := by
    rw [(allocate_sequence success).1, seq]
    decide
  have allocated := happen_allocate_some success
  have inside : 0 < s.handles.length := (List.getElem?_eq_some_iff.mp state.first).1
  have first : (s.happen .allocate).handles[0]? = some ⟨⟨⟨1⟩, 0, 0⟩, .held⟩ := by
    rw [allocated]
    show (s.handles ++ _)[0]? = _
    rw [List.getElem?_append_left inside, state.first]
  refine ⟨?_, t, ?_, serial.trans state.registered, ?_⟩
  · rw [allocated]
    show c.registered = r + 3
    rw [registered, state.registered]
  · rw [allocated]
    show t ∈ c.pending
    rw [pending]
    exact List.mem_append_right _ (List.mem_singleton_self t)
  · simp only [happen, perform, useHandle] at first ⊢
    rw [first]
    intro member
    have kept := (List.mem_filter.mp member).2
    simp [id, seq] at kept

end Around

theorem around_state {r : Nat} (few : numberAfter r ≤ UInt64.size) :
    (after (around r)).Around r := by
  induction r with
  | zero => exact ⟨by decide, by decide, by decide, by decide⟩
  | succ r ih =>
    have before : numberAfter r ≤ UInt64.size := by
      rcases numberAfter_succ r with ⟨_, next, _⟩ | ⟨_, next⟩ <;> omega
    have step : after (around (r + 1)) =
        ((after (around r)).happen .allocate).happen (.drop (r + 2)) := by
      rw [← after_concat, ← after_concat, around, rounds, around]
      simp only [List.append_assoc, List.cons_append, List.nil_append]
    rw [step]
    exact (ih before).round (coherent_after _) few

/-- As many rounds as bring the counter back to its start. -/
def onceAround : Nat :=
  UInt64.size - 2050

/-- The bound cannot be on the registrations: after `2 ^ 64 - 2048` of them the counter
is at its start again, and the handle of the first call gives up the next one. -/
theorem not_leakless_of_registered :
    ¬ ∀ events, (after events).correlator.registered < UInt64.size →
      Leakless events True := by
  intro leakless
  have again : numberAfter onceAround = UInt64.size := by decide
  have state := around_state again.le
  obtain ⟨registered, t, member, serial, removed⟩ := state.foreign again
  rw [← after_concat] at registered member removed
  have few : (after (around onceAround ++ [.allocate])).correlator.registered <
      UInt64.size := by
    rw [registered]
    decide
  have own := (leakless _ few).own trivial 0 (.drop 0) (Or.inl rfl) t member removed
  omega

end ProxyConsole.Correlator.Session
