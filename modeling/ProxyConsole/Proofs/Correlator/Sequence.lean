import ProxyConsole.Proofs.Correlator.Basic

/-!
# Sequence numbers

A registration takes the next sequence number whose id is free and passes over those
whose id is still pending.  As long as the ids have not come round, no number is passed
over, and the id of a call tells the number of its registration.
-/

set_option autoImplicit false

namespace ProxyConsole

/-- How many ids there are before they come round. -/
def RequestId.count : Nat := 9007199254740991

theorem RequestId.eq_iff_toNat {id id' : RequestId} :
    id = id' ↔ id.val.toNat = id'.val.toNat := by
  constructor
  · intro same
    rw [same]
  · intro same
    cases id
    cases id'
    exact congrArg RequestId.mk (UInt64.toNat_inj.mp same)

theorem RequestId.ofSequence_toNat (seq : UInt64) :
    (RequestId.ofSequence seq).val.toNat = seq.toNat % RequestId.count + 1 := by
  have ids : (RequestId.bound - 1).toNat = RequestId.count := by decide
  have small : seq.toNat % RequestId.count < RequestId.count := Nat.mod_lt _ (by decide)
  have room : RequestId.count < 2 ^ 63 := by decide
  rw [RequestId.ofSequence, UInt64.toNat_add, UInt64.toNat_mod, ids]
  apply Nat.mod_eq_of_lt
  have one : (1 : UInt64).toNat = 1 := rfl
  omega

theorem RequestId.ofSequence_val {seq : UInt64} (early : seq.toNat < RequestId.count) :
    (RequestId.ofSequence seq).val.toNat = seq.toNat + 1 := by
  rw [RequestId.ofSequence_toNat, Nat.mod_eq_of_lt early]

/-- Sequence numbers that are closer to each other than there are ids have different ids. -/
theorem RequestId.eq_of_ofSequence {base : Nat} {a b : UInt64}
    (left : base ≤ a.toNat ∧ a.toNat < base + RequestId.count)
    (right : base ≤ b.toNat ∧ b.toNat < base + RequestId.count)
    (same : RequestId.ofSequence a = RequestId.ofSequence b) : a = b := by
  have values : (RequestId.ofSequence a).val.toNat = (RequestId.ofSequence b).val.toNat := by
    rw [same]
  rw [RequestId.ofSequence_toNat, RequestId.ofSequence_toNat] at values
  apply UInt64.toNat_inj.mp
  unfold RequestId.count at left right values
  omega

namespace Correlator

/-- How many sequence numbers in a row have pending ids, among the given number of candidates. -/
def pendingRun (c : Correlator) (seq : UInt64) : Nat → Nat
  | 0 => 0
  | tries + 1 =>
    if c.contains (RequestId.ofSequence seq) then c.pendingRun (seq + 1) tries + 1 else 0

/-- How many sequence numbers the next registration passes over. -/
def passes (c : Correlator) : Nat :=
  c.pendingRun c.nextSeq (2 * c.pending.length + 1)

theorem freeSeq?_eq {c : Correlator} {tries : Nat} {seq found : UInt64}
    (success : c.freeSeq? seq tries = some found) :
    found = seq + UInt64.ofNat (c.pendingRun seq tries) := by
  induction tries generalizing seq with
  | zero => cases success
  | succ tries ih =>
    rw [freeSeq?] at success
    rw [pendingRun]
    split at success
    · rename_i taken
      rw [if_pos taken, ih success, UInt64.ofNat_add, UInt64.add_assoc, UInt64.add_comm 1]
      rfl
    · rename_i free
      cases success
      rw [if_neg free]
      exact (UInt64.add_zero _).symm

theorem allocate_sequence {c c' : Correlator} {t : Ticket} (success : c.allocate = some (t, c')) :
    t.id = RequestId.ofSequence t.seq ∧ t.seq = c.nextSeq + UInt64.ofNat c.passes ∧
      c'.nextSeq = t.seq + 1 := by
  unfold allocate at success
  split at success
  · cases success
  · rename_i seq found
    cases success
    exact ⟨rfl, freeSeq?_eq found, rfl⟩

/-- What a registration takes, counted without end, as long as the counter does not start
again. -/
theorem allocate_counted {c c' : Correlator} {t : Ticket} (success : c.allocate = some (t, c'))
    {n : Nat} (next : c.nextSeq = UInt64.ofNat n) (few : n + (c.passes + 1) ≤ UInt64.size) :
    t.seq.toNat = n + c.passes ∧ c'.nextSeq = UInt64.ofNat (n + (c.passes + 1)) := by
  obtain ⟨_, seq, next'⟩ := allocate_sequence success
  have number : t.seq = UInt64.ofNat (n + c.passes) := by
    rw [seq, next, UInt64.ofNat_add]
  constructor
  · rw [number, UInt64.toNat_ofNat_of_lt' (by omega)]
  · rw [next', number, ← Nat.add_assoc, UInt64.ofNat_add (n + c.passes)]
    rfl

theorem allocate_of_found {c : Correlator} {seq : UInt64}
    (found : c.freeSeq? c.nextSeq (2 * c.pending.length + 1) = some seq) :
    ∃ t c', c.allocate = some (t, c') ∧ t.seq = seq :=
  ⟨_, _, by rw [allocate, found], rfl⟩

/-! ## Before the ids come round -/

/-- Every registration so far took one sequence number, and pending calls are known by their ids. -/
structure Unwrapped (c : Correlator) : Prop where
  next : c.nextSeq.toNat = c.registered
  ids : ∀ t ∈ c.pending, t.id.val.toNat = t.serial + 1

theorem unwrapped_empty : Unwrapped {} :=
  ⟨rfl, by simp⟩

theorem Unwrapped.of_pending {c c' : Correlator} (unwrapped : c.Unwrapped)
    (nextSeq : c'.nextSeq = c.nextSeq) (registered : c'.registered = c.registered)
    (pending : ∀ t ∈ c'.pending, t ∈ c.pending) : c'.Unwrapped where
  next := by rw [nextSeq, registered, unwrapped.next]
  ids t member := unwrapped.ids t (pending t member)

theorem Unwrapped.free {c : Correlator} (unwrapped : c.Unwrapped) (shape : c.WellFormed)
    (few : c.registered < RequestId.count) :
    c.contains (RequestId.ofSequence c.nextSeq) = false := by
  have early : c.nextSeq.toNat < RequestId.count := by rw [unwrapped.next]; exact few
  rw [contains, List.any_eq_false]
  intro t member same
  have number := unwrapped.ids t member
  have older := shape.pending_registered t member
  rw [of_decide_eq_true same, RequestId.ofSequence_val early, unwrapped.next] at number
  omega

theorem Unwrapped.passes_eq_zero {c : Correlator} (unwrapped : c.Unwrapped) (shape : c.WellFormed)
    (few : c.registered < RequestId.count) : c.passes = 0 := by
  rw [passes, pendingRun, unwrapped.free shape few]
  rfl

/-- There is a free id, and it tells the number of the registration. -/
theorem Unwrapped.allocate {c : Correlator} (unwrapped : c.Unwrapped) (shape : c.WellFormed)
    (few : c.registered < RequestId.count) :
    ∃ t c', c.allocate = some (t, c') ∧ t.id.val.toNat = t.serial + 1 ∧ c'.Unwrapped := by
  have early : c.nextSeq.toNat < RequestId.count := by rw [unwrapped.next]; exact few
  have own := RequestId.ofSequence_val early
  have found : c.freeSeq? c.nextSeq (2 * c.pending.length + 1) = some c.nextSeq := by
    rw [freeSeq?, unwrapped.free shape few]
    rfl
  have registers : c.allocate = some (⟨RequestId.ofSequence c.nextSeq, c.nextSeq, c.registered⟩,
      { c with
        pending := c.pending ++ [⟨RequestId.ofSequence c.nextSeq, c.nextSeq, c.registered⟩]
        nextSeq := c.nextSeq + 1
        registered := c.registered + 1 }) := by
    rw [Correlator.allocate, found]
  rw [unwrapped.next] at own
  refine ⟨_, _, registers, own, ?_, ?_⟩
  · have small : RequestId.count < 2 ^ 63 := by decide
    have one : (1 : UInt64).toNat = 1 := rfl
    rw [UInt64.toNat_add, unwrapped.next, Nat.mod_eq_of_lt (by omega), one]
  · intro t member
    rcases List.mem_append.mp member with earlier | last
    · exact unwrapped.ids t earlier
    · rw [List.mem_singleton.mp last]
      exact own

end Correlator

end ProxyConsole
