import Mathlib.Data.List.Nodup
import ProxyConsole.Correlator

/-!
# What the operations of a correlator keep

Pending calls have different ids.  A response is kept only for a call that is no longer
pending and whose id it carries, and at most one response is kept for a call.
Registrations are numbered without end, so no ticket is given out twice, whatever
becomes of ids and sequence numbers.
-/

set_option autoImplicit false

namespace ProxyConsole.Correlator

/-- The shape of every correlator that comes from an empty one. -/
structure WellFormed (c : Correlator) : Prop where
  ids_nodup : (c.pending.map Ticket.id).Nodup
  pending_registered : ∀ t ∈ c.pending, t.serial < c.registered
  delivered_registered : ∀ d ∈ c.delivered, d.1.serial < c.registered
  delivered_id : ∀ d ∈ c.delivered, d.2.requestId = d.1.id
  delivered_settled : ∀ d ∈ c.delivered, d.1 ∉ c.pending
  delivered_nodup : (c.delivered.map Prod.fst).Nodup

theorem wellFormed_empty : WellFormed {} := by
  constructor <;> simp

/-- Some pending calls and responses may be gone; nothing else is different. -/
structure Reduces (c c' : Correlator) : Prop where
  pending : c'.pending.Sublist c.pending
  delivered : c'.delivered.Sublist c.delivered
  registered : c'.registered = c.registered

theorem Reduces.wellFormed {c c' : Correlator} (reduces : c.Reduces c') (shape : c.WellFormed) :
    c'.WellFormed where
  ids_nodup := (reduces.pending.map Ticket.id).nodup shape.ids_nodup
  pending_registered := by
    intro t member
    rw [reduces.registered]
    exact shape.pending_registered t (reduces.pending.subset member)
  delivered_registered := by
    intro d member
    rw [reduces.registered]
    exact shape.delivered_registered d (reduces.delivered.subset member)
  delivered_id d member := shape.delivered_id d (reduces.delivered.subset member)
  delivered_settled := by
    intro d member stillPending
    exact shape.delivered_settled d (reduces.delivered.subset member)
      (reduces.pending.subset stillPending)
  delivered_nodup := (reduces.delivered.map Prod.fst).nodup shape.delivered_nodup

theorem cancel_reduces (c : Correlator) (id : RequestId) : c.Reduces (c.cancel id).2 :=
  ⟨List.filter_sublist, List.Sublist.refl _, rfl⟩

theorem cancelAll_reduces (c : Correlator) : c.Reduces c.cancelAll.2 :=
  ⟨List.nil_sublist _, List.Sublist.refl _, rfl⟩

theorem collect_reduces (c : Correlator) (t : Ticket) : c.Reduces (c.collect t) :=
  ⟨List.Sublist.refl _, List.filter_sublist, rfl⟩

theorem release_reduces (c : Correlator) (t : Ticket) : c.Reduces (c.release t) :=
  ⟨List.filter_sublist, List.filter_sublist, rfl⟩

theorem conclude_reduces (c : Correlator) (t : Ticket) : c.Reduces (c.conclude t) := by
  unfold conclude
  split
  · exact c.release_reduces t
  · exact c.collect_reduces t

/-! ## Registering -/

theorem contains_eq_false {c : Correlator} {id : RequestId} (free : c.contains id = false) :
    ∀ t ∈ c.pending, t.id ≠ id := by
  intro t member same
  have found : c.contains id = true :=
    List.any_eq_true.mpr ⟨t, member, decide_eq_true same⟩
  rw [free] at found
  cases found

theorem freeSeq?_free {c : Correlator} {tries : Nat} {seq found : UInt64}
    (success : c.freeSeq? seq tries = some found) :
    c.contains (RequestId.ofSequence found) = false := by
  induction tries generalizing seq with
  | zero => simp [freeSeq?] at success
  | succ tries ih =>
    simp only [freeSeq?] at success
    split at success
    · exact ih success
    · rename_i free
      cases success
      simpa using free

/-- All that registering a call does: its ticket is new, and so is its id among the pending
calls. -/
theorem allocate_cases {c c' : Correlator} {t : Ticket} (success : c.allocate = some (t, c')) :
    t.serial = c.registered ∧ (∀ p ∈ c.pending, p.id ≠ t.id) ∧ c'.pending = c.pending ++ [t] ∧
      c'.delivered = c.delivered ∧ c'.registered = c.registered + 1 := by
  unfold allocate at success
  split at success
  · cases success
  · rename_i seq found
    cases success
    exact ⟨rfl, contains_eq_false (freeSeq?_free found), rfl, rfl, rfl⟩

theorem WellFormed.allocate {c c' : Correlator} {t : Ticket} (shape : c.WellFormed)
    (success : c.allocate = some (t, c')) : c'.WellFormed := by
  obtain ⟨serial, fresh, pending, delivered, registered⟩ := allocate_cases success
  refine ⟨?_, ?_, ?_, ?_, ?_, ?_⟩
  · rw [pending, List.map_append, List.nodup_append]
    refine ⟨shape.ids_nodup, by simp, ?_⟩
    intro id member id' last same
    obtain ⟨p, earlier, rfl⟩ := List.mem_map.mp member
    have last : id' = t.id := by simpa using last
    exact fresh p earlier (same.trans last)
  · intro p member
    rw [pending, List.mem_append, List.mem_singleton] at member
    rw [registered]
    rcases member with earlier | rfl
    · exact Nat.lt_succ_of_lt (shape.pending_registered p earlier)
    · omega
  · intro d member
    rw [delivered] at member
    rw [registered]
    exact Nat.lt_succ_of_lt (shape.delivered_registered d member)
  · intro d member
    rw [delivered] at member
    exact shape.delivered_id d member
  · intro d member stillPending
    rw [delivered] at member
    rw [pending, List.mem_append, List.mem_singleton] at stillPending
    rcases stillPending with earlier | same
    · exact shape.delivered_settled d member earlier
    · have older := shape.delivered_registered d member
      rw [same] at older
      omega
  · rw [delivered]
    exact shape.delivered_nodup

/-! ## Delivering -/

theorem WellFormed.eq_of_id {c : Correlator} (shape : c.WellFormed) {t u : Ticket}
    (left : t ∈ c.pending) (right : u ∈ c.pending) (same : t.id = u.id) : t = u :=
  List.inj_on_of_nodup_map shape.ids_nodup left right same

/-- All that a dispatch does: without a pending call of its id nothing, else the response
goes over to that call. -/
theorem dispatch_cases (c : Correlator) (e : InboundEnvelope) :
    (c.dispatch e = (false, c) ∧ ∀ t ∈ c.pending, t.id ≠ e.requestId) ∨
      ∃ t ∈ c.pending, t.id = e.requestId ∧
        c.dispatch e = (true, { c with
          pending := c.pending.filter (· ≠ t)
          delivered := c.delivered ++ [(t, e)] }) := by
  unfold dispatch
  split
  · rename_i missing
    refine Or.inl ⟨rfl, ?_⟩
    intro t member
    simpa using List.find?_eq_none.mp missing t member
  · rename_i t found
    refine Or.inr ⟨t, List.mem_of_find?_eq_some found, ?_, rfl⟩
    simpa using List.find?_some found

theorem WellFormed.dispatch {c : Correlator} (shape : c.WellFormed) (e : InboundEnvelope) :
    (c.dispatch e).2.WellFormed := by
  rcases c.dispatch_cases e with ⟨same, _⟩ | ⟨t, member, id, result⟩
  · rw [same]
    exact shape
  · rw [result]
    refine ⟨?_, ?_, ?_, ?_, ?_, ?_⟩
    · exact (List.filter_sublist.map Ticket.id).nodup shape.ids_nodup
    · intro p left
      exact shape.pending_registered p (List.mem_of_mem_filter left)
    · intro d delivered
      rcases List.mem_append.mp delivered with earlier | last
      · exact shape.delivered_registered d earlier
      · rw [List.mem_singleton.mp last]
        exact shape.pending_registered t member
    · intro d delivered
      rcases List.mem_append.mp delivered with earlier | last
      · exact shape.delivered_id d earlier
      · rw [List.mem_singleton.mp last]
        exact id.symm
    · intro d delivered stillPending
      obtain ⟨present, other⟩ := List.mem_filter.mp stillPending
      rcases List.mem_append.mp delivered with earlier | last
      · exact shape.delivered_settled d earlier present
      · rw [List.mem_singleton.mp last] at other
        simp at other
    · rw [List.map_append, List.nodup_append]
      refine ⟨shape.delivered_nodup, by simp, ?_⟩
      intro u earlier u' last same
      obtain ⟨d, delivered, rfl⟩ := List.mem_map.mp earlier
      have last : u' = t := by simpa using last
      rw [last] at same
      exact shape.delivered_settled d delivered (same ▸ member)

/-! ## What a ticket's holder sees -/

theorem lookup_mem {c : Correlator} {t : Ticket} {e : InboundEnvelope}
    (found : c.delivered.lookup t = some e) : (t, e) ∈ c.delivered := by
  obtain ⟨before, after, split, _⟩ := List.lookup_eq_some_iff.mp found
  rw [split]
  simp

theorem WellFormed.lookup {c : Correlator} (shape : c.WellFormed) {t : Ticket}
    {e : InboundEnvelope} (member : (t, e) ∈ c.delivered) : c.delivered.lookup t = some e := by
  cases found : c.delivered.lookup t with
  | none =>
    have absent := List.lookup_eq_none_iff.mp found (t, e) member
    simp at absent
  | some e' =>
    have same : (t, e') = (t, e) :=
      List.inj_on_of_nodup_map shape.delivered_nodup (lookup_mem found) member rfl
    cases same
    rfl

theorem status_delivered {c : Correlator} {t : Ticket} {e : InboundEnvelope}
    (status : c.status t = .delivered e) : (t, e) ∈ c.delivered := by
  unfold Correlator.status at status
  split at status
  · rename_i found
    cases status
    exact lookup_mem found
  · split at status <;> cases status

theorem WellFormed.status_of_delivered {c : Correlator} (shape : c.WellFormed) {t : Ticket}
    {e : InboundEnvelope} (member : (t, e) ∈ c.delivered) : c.status t = .delivered e := by
  unfold Correlator.status
  rw [shape.lookup member]

theorem WellFormed.not_pending {c : Correlator} (shape : c.WellFormed) {t : Ticket}
    (status : c.status t ≠ .waiting) : t ∉ c.pending := by
  intro member
  cases found : c.delivered.lookup t with
  | none => simp [Correlator.status, found, member] at status
  | some e => exact shape.delivered_settled (t, e) (lookup_mem found) member

theorem release_forgets (c : Correlator) (t : Ticket) :
    t ∉ (c.release t).pending ∧ ∀ e, (t, e) ∉ (c.release t).delivered := by
  constructor
  · intro member
    have kept := (List.mem_filter.mp member).2
    simp at kept
  · intro e member
    have kept := (List.mem_filter.mp member).2
    simp at kept

theorem conclude_forgets {c : Correlator} (shape : c.WellFormed) (t : Ticket) :
    t ∉ (c.conclude t).pending ∧ ∀ e, (t, e) ∉ (c.conclude t).delivered := by
  unfold conclude
  split
  · exact c.release_forgets t
  · rename_i status
    refine ⟨shape.not_pending status, ?_⟩
    intro e member
    have kept := (List.mem_filter.mp member).2
    simp at kept

theorem mem_collect {c : Correlator} {t u : Ticket} {e : InboundEnvelope} (other : u ≠ t)
    (member : (u, e) ∈ c.delivered) : (u, e) ∈ (c.collect t).delivered :=
  List.mem_filter.mpr ⟨member, by simpa using other⟩

theorem mem_conclude {c : Correlator} {t u : Ticket} {e : InboundEnvelope} (other : u ≠ t)
    (member : (u, e) ∈ c.delivered) : (u, e) ∈ (c.conclude t).delivered := by
  unfold conclude
  split
  · exact mem_collect other member
  · exact mem_collect other member

end ProxyConsole.Correlator
