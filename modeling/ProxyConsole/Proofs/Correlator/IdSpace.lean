import Mathlib.Data.Nat.ModEq
import Mathlib.Data.List.Perm.Subperm
import Mathlib.Data.Set.Function
import ProxyConsole.Decimal.Rounding
import ProxyConsole.Proofs.Correlator.Pending

/-!
# The space of request ids

Ids run from 1 to `2 ^ 53 - 1`, and sequence numbers have the same id exactly if they
differ by a multiple of `2 ^ 53 - 1`.  So that many sequence numbers in a row have every
id once, and the calls registered while the counter goes through them have different
ids.  A registration finds an id unless every id is pending: where the counter starts
again the ids need not follow one another, so it may come across a pending id twice, but
not more often.
-/

set_option autoImplicit false

namespace ProxyConsole

namespace RequestId

/-- The ids that sequence numbers are mapped to. -/
def space : Set RequestId :=
  {id | 1 ≤ id.val.toNat ∧ id.val.toNat ≤ 2 ^ 53 - 1}

/-- As many sequence numbers in a row as there are ids. -/
def window (start : Nat) : Set UInt64 :=
  {seq | start ≤ seq.toNat ∧ seq.toNat < start + (2 ^ 53 - 1)}

theorem count_eq : count = 2 ^ 53 - 1 := by
  decide

theorem ofSequence_mem_space (seq : UInt64) : ofSequence seq ∈ space := by
  have small : seq.toNat % count < count := Nat.mod_lt _ (by decide)
  rw [space, Set.mem_ofPred_eq, ofSequence_toNat, ← count_eq]
  omega

theorem ofSequence_eq_iff (a b : UInt64) :
    ofSequence a = ofSequence b ↔ a.toNat ≡ b.toNat [MOD 2 ^ 53 - 1] := by
  rw [eq_iff_toNat, ofSequence_toNat, ofSequence_toNat, Nat.ModEq, ← count_eq]
  omega

theorem window_surjOn (start : Nat) (inside : start + (2 ^ 53 - 1) ≤ 2 ^ 64) :
    Set.SurjOn ofSequence (window start) space := by
  intro id member
  obtain ⟨positive, bounded⟩ := member
  -- The first number from `start` on that leaves the remainder of the id.
  let n := start + (id.val.toNat - 1 + count - start % count) % count
  have early : n < start + count := Nat.add_lt_add_left (Nat.mod_lt _ (by decide)) start
  have number : (UInt64.ofNat n).toNat = n := UInt64.toNat_ofNat_of_lt' (by
    rw [count_eq] at early
    exact Nat.lt_of_lt_of_le early inside)
  refine ⟨UInt64.ofNat n, ⟨?_, ?_⟩, ?_⟩
  · rw [number]
    exact Nat.le_add_right _ _
  · rw [number, ← count_eq]
    exact early
  · have remainder : n % count = id.val.toNat - 1 := by
      rw [← count_eq] at bounded
      simp only [n, count] at bounded ⊢
      omega
    rw [eq_iff_toNat, ofSequence_toNat, number, remainder]
    omega

theorem window_bijOn (start : Nat) (inside : start + (2 ^ 53 - 1) ≤ 2 ^ 64) :
    Set.BijOn ofSequence (window start) space := by
  refine ⟨fun seq _ => ofSequence_mem_space seq, ?_, window_surjOn start inside⟩
  intro a left b right same
  exact eq_of_ofSequence left right same

/-- The ids of sequence numbers in a row. -/
def idsFrom (start length : Nat) : List RequestId :=
  (List.range length).map fun i => ofSequence (UInt64.ofNat (start + i))

theorem idsFrom_nodup {start length : Nat} (inside : start + length ≤ 2 ^ 64)
    (few : length ≤ count) : (idsFrom start length).Nodup := by
  have number : ∀ i ∈ List.range length, (UInt64.ofNat (start + i)).toNat = start + i := by
    intro i early
    have early := List.mem_range.mp early
    exact UInt64.toNat_ofNat_of_lt' (Nat.lt_of_lt_of_le (by omega) inside)
  have near : ∀ i ∈ List.range length, start ≤ (UInt64.ofNat (start + i)).toNat ∧
      (UInt64.ofNat (start + i)).toNat < start + count := by
    intro i early
    rw [number i early]
    have early := List.mem_range.mp early
    omega
  refine List.Nodup.map_on ?_ List.nodup_range
  intro i left j right same
  have values := congrArg UInt64.toNat (eq_of_ofSequence (near i left) (near j right) same)
  rw [number i left, number j right] at values
  omega

theorem mem_idsFrom {start length : Nat} (inside : start + length ≤ 2 ^ 64) (all : count ≤ length)
    (seq : UInt64) : ofSequence seq ∈ idsFrom start length := by
  rw [count_eq] at all
  obtain ⟨seq', ⟨low, high⟩, same⟩ := window_surjOn start (by omega) (ofSequence_mem_space seq)
  refine List.mem_map.mpr ⟨seq'.toNat - start, List.mem_range.mpr (by omega), ?_⟩
  rw [Nat.add_sub_cancel' low, UInt64.ofNat_toNat, same]

end RequestId

namespace Correlator

/-! ## Finding a free id -/

theorem contains_iff {c : Correlator} {id : RequestId} :
    c.contains id = true ↔ id ∈ c.pending.map Ticket.id := by
  simp [contains, List.mem_map]

/-- Sequence numbers in a row whose ids are all pending are no more than the pending calls,
if there is a free id at all. -/
theorem length_le_pending {c : Correlator} {start length : Nat} (inside : start + length ≤ 2 ^ 64)
    (taken : ∀ id ∈ RequestId.idsFrom start length, c.contains id = true)
    (free : ∃ seq, c.contains (RequestId.ofSequence seq) = false) :
    length < RequestId.count ∧ length ≤ c.pending.length := by
  have few : length < RequestId.count := by
    by_contra all
    obtain ⟨seq, isFree⟩ := free
    have isTaken := taken _ (RequestId.mem_idsFrom inside (Nat.le_of_not_lt all) seq)
    rw [isFree] at isTaken
    cases isTaken
  have within : RequestId.idsFrom start length ⊆ c.pending.map Ticket.id :=
    fun id member => contains_iff.mp (taken id member)
  have bound := ((RequestId.idsFrom_nodup inside few.le).subperm within).length_le
  refine ⟨few, ?_⟩
  simpa [RequestId.idsFrom] using bound

theorem freeSeq?_none {c : Correlator} {tries : Nat} {seq : UInt64}
    (failure : c.freeSeq? seq tries = none) :
    ∀ i < tries, c.contains (RequestId.ofSequence (seq + UInt64.ofNat i)) = true := by
  induction tries generalizing seq with
  | zero => intro i early; omega
  | succ tries ih =>
    rw [freeSeq?] at failure
    by_cases taken : c.contains (RequestId.ofSequence seq) = true
    · rw [if_pos taken] at failure
      intro i early
      cases i with
      | zero => simpa using taken
      | succ i =>
        have next := ih failure i (by omega)
        rw [UInt64.add_assoc, UInt64.add_comm 1, ← UInt64.ofNat_one, ← UInt64.ofNat_add] at next
        exact next
    · rw [if_neg taken] at failure
      cases failure

theorem freeSeq?_of_free {c : Correlator} (seq : UInt64)
    (free : ∃ seq, c.contains (RequestId.ofSequence seq) = false) :
    c.freeSeq? seq (2 * c.pending.length + 1) ≠ none := by
  intro failure
  have taken := freeSeq?_none failure
  have range : seq.toNat < 2 ^ 64 := seq.toNat_lt
  have count := RequestId.count_eq
  -- The candidates before the counter starts again, and those after that, up to one for each id.
  let before := min (2 * c.pending.length + 1) (2 ^ 64 - seq.toNat)
  let later := min (2 * c.pending.length + 1 - before) RequestId.count
  have first : ∀ id ∈ RequestId.idsFrom seq.toNat before, c.contains id = true := by
    intro id member
    obtain ⟨i, early, rfl⟩ := List.mem_map.mp member
    have early := List.mem_range.mp early
    rw [UInt64.ofNat_add, UInt64.ofNat_toNat]
    exact taken i (by omega)
  have second : ∀ id ∈ RequestId.idsFrom 0 later, c.contains id = true := by
    intro id member
    obtain ⟨i, early, rfl⟩ := List.mem_map.mp member
    have early := List.mem_range.mp early
    have wraps : seq + UInt64.ofNat (before + i) = UInt64.ofNat (0 + i) := by
      apply UInt64.toNat_inj.mp
      rw [UInt64.toNat_add, UInt64.toNat_ofNat', UInt64.toNat_ofNat']
      omega
    rw [← wraps]
    exact taken _ (by omega)
  have few := length_le_pending (by omega) first free
  have few' := length_le_pending (by omega) second free
  omega

/-- A registration succeeds as long as some id is not pending. -/
theorem allocate_of_free {c : Correlator}
    (free : ∃ seq, c.contains (RequestId.ofSequence seq) = false) :
    ∃ t c', c.allocate = some (t, c') := by
  obtain ⟨seq, found⟩ := Option.ne_none_iff_exists'.mp (c.freeSeq?_of_free c.nextSeq free)
  exact ⟨_, _, by rw [allocate, found]⟩

/-! ## Registrations in a row -/

namespace Session

/-- The tickets that a run gives out. -/
def newTickets (s : Session) (events : List SessionEvent) : List Ticket :=
  (s.run events).tickets.drop s.tickets.length

/-- The registrations of a run take their ids from one window of sequence numbers. -/
structure TakesIds (s : Session) (events : List SessionEvent) : Prop where
  next : (s.run events).correlator.nextSeq =
    UInt64.ofNat (s.correlator.nextSeq.toNat + s.taken events)
  derived : ∀ t ∈ s.newTickets events,
    t.seq ∈ RequestId.window s.correlator.nextSeq.toNat ∧ t.id = RequestId.ofSequence t.seq
  different : ((s.newTickets events).map Ticket.id).Nodup

theorem takesIds_of_few {s : Session} {events : List SessionEvent}
    (few : s.taken events ≤ 2 ^ 53 - 1)
    (inside : s.correlator.nextSeq.toNat + s.taken events ≤ 2 ^ 64) : s.TakesIds events := by
  obtain ⟨given, draws⟩ := s.run_draws events inside
  have new : s.newTickets events = given := by
    rw [newTickets, draws.tickets, List.drop_left]
  have inWindow : ∀ t ∈ given, t.seq ∈ RequestId.window s.correlator.nextSeq.toNat := by
    intro t member
    obtain ⟨low, high⟩ := draws.range t member
    exact ⟨low, by omega⟩
  constructor
  · exact draws.next
  · rw [new]
    exact fun t member => ⟨inWindow t member, draws.derived t member⟩
  · have ids : given.map Ticket.id = (given.map Ticket.seq).map RequestId.ofSequence := by
      rw [List.map_map]
      exact List.map_congr_left draws.derived
    rw [new, ids]
    refine List.Nodup.map_on ?_ draws.distinct
    intro a left b right same
    obtain ⟨t, member, rfl⟩ := List.mem_map.mp left
    obtain ⟨u, member', rfl⟩ := List.mem_map.mp right
    exact RequestId.eq_of_ofSequence (inWindow t member) (inWindow u member') same

end Session

end Correlator

namespace RequestId

/-- What makes the ids of sequence numbers safe to pair responses by. -/
structure SafeIds : Prop where
  /-- An id is computed without overflow. -/
  value : ∀ seq, (ofSequence seq).val.toNat = seq.toNat % (2 ^ 53 - 1) + 1
  range : ∀ seq, ofSequence seq ∈ space
  /-- A peer that holds ids as doubles keeps them exact. -/
  asDouble : ∀ id ∈ space, Decimal.toDouble id.val.toNat = id.val.toNat
  congruent : ∀ a b, ofSequence a = ofSequence b ↔ a.toNat ≡ b.toNat [MOD 2 ^ 53 - 1]
  reached : ∀ id ∈ space, ∃ seq, ofSequence seq = id
  bijective : ∀ start, start + (2 ^ 53 - 1) ≤ 2 ^ 64 → Set.BijOn ofSequence (window start) space
  registers : ∀ c : Correlator, (∃ id ∈ space, c.contains id = false) →
    ∃ t c', c.allocate = some (t, c')
  /-- Registrations that take their sequence numbers from one window receive different ids. -/
  different : ∀ (s : Correlator.Session) (events : List Correlator.SessionEvent),
    s.taken events ≤ 2 ^ 53 - 1 → s.correlator.nextSeq.toNat + s.taken events ≤ 2 ^ 64 →
      s.TakesIds events

theorem ids_safe : SafeIds where
  value seq := by
    rw [ofSequence_toNat, count_eq]
  range := ofSequence_mem_space
  asDouble id member := by
    apply Decimal.toDouble_of_lt
    exact Nat.lt_of_le_of_lt member.2 (by decide)
  congruent := ofSequence_eq_iff
  reached id member := by
    obtain ⟨seq, _, same⟩ := window_surjOn 0 (by decide) member
    exact ⟨seq, same⟩
  bijective := window_bijOn
  registers c free := by
    obtain ⟨id, member, isFree⟩ := free
    obtain ⟨seq, _, rfl⟩ := window_surjOn 0 (by decide) member
    exact Correlator.allocate_of_free ⟨seq, isFree⟩
  different _ _ := Correlator.Session.takesIds_of_few

end RequestId

end ProxyConsole
