import ProxyConsole.Proofs.Correlator.Evolution

/-!
# Listening to the end

The listener dispatches what is left in the channel in the order of arrival and then
cancels every call that is still pending.  A call that was cancelled gets nothing any
more, whatever becomes of the correlator.
-/

set_option autoImplicit false

namespace ProxyConsole

/-! ## What the holder of a ticket is told -/

/-- The first of some responses that carries a ticket's id. -/
def Ticket.firstOf (t : Ticket) (responses : List InboundEnvelope) : Option InboundEnvelope :=
  responses.find? fun e => e.requestId = t.id

namespace TicketStatus

/-- What the holder of a ticket is told once responses were dispatched in turn: whoever
waits receives the first one with the id. -/
def hear (t : Ticket) (responses : List InboundEnvelope) : TicketStatus → TicketStatus
  | .waiting =>
    match t.firstOf responses with
    | some e => .delivered e
    | none => .waiting
  | status => status

/-- What the holder of a ticket is told once every pending call was cancelled. -/
def cutOff : TicketStatus → TicketStatus
  | .waiting => .cancelled
  | status => status

@[simp]
theorem hear_nil (t : Ticket) (status : TicketStatus) : status.hear t [] = status := by
  cases status <;> rfl

theorem hear_append (t : Ticket) (responses later : List InboundEnvelope) (status : TicketStatus) :
    status.hear t (responses ++ later) = (status.hear t responses).hear t later := by
  cases status with
  | waiting =>
    simp only [hear, Ticket.firstOf, List.find?_append]
    cases responses.find? fun e => e.requestId = t.id <;> rfl
  | _ => rfl

theorem hear_singleton (t : Ticket) (e : InboundEnvelope) (status : TicketStatus) :
    status.hear t [e] =
      if status = .waiting ∧ e.requestId = t.id then .delivered e else status := by
  cases status with
  | waiting => by_cases own : e.requestId = t.id <;> simp [hear, Ticket.firstOf, own]
  | _ => simp [hear]

end TicketStatus

namespace Correlator

variable {c c' : Correlator} {t : Ticket}

theorem WellFormed.status_waiting (shape : c.WellFormed) (pending : t ∈ c.pending) :
    c.status t = .waiting := by
  have none : c.delivered.lookup t = none := by
    rw [List.lookup_eq_none_iff]
    intro d kept
    have settled := shape.delivered_settled d kept
    rw [bne_iff_ne]
    rintro rfl
    exact settled pending
  rw [Correlator.status, none]
  exact if_pos pending

theorem pending_of_waiting (status : c.status t = .waiting) : t ∈ c.pending := by
  unfold Correlator.status at status
  split at status
  · cases status
  · split at status
    · assumption
    · cases status

theorem status_cancelled (pending : t ∉ c.pending) (delivered : ∀ e, (t, e) ∉ c.delivered) :
    c.status t = .cancelled := by
  have none : c.delivered.lookup t = none := by
    cases found : c.delivered.lookup t with
    | none => rfl
    | some e => exact absurd (lookup_mem found) (delivered e)
  rw [Correlator.status, none]
  exact if_neg pending

theorem WellFormed.status_congr (shape : c.WellFormed) (shape' : c'.WellFormed)
    (pending : t ∈ c.pending ↔ t ∈ c'.pending)
    (delivered : ∀ e, (t, e) ∈ c.delivered ↔ (t, e) ∈ c'.delivered) : c'.status t = c.status t := by
  by_cases waits : t ∈ c.pending
  · rw [shape.status_waiting waits, shape'.status_waiting (pending.mp waits)]
  · by_cases answered : ∃ e, (t, e) ∈ c.delivered
    · obtain ⟨e, kept⟩ := answered
      rw [shape.status_of_delivered kept, shape'.status_of_delivered ((delivered e).mp kept)]
    · have nothing : ∀ e, (t, e) ∉ c.delivered := fun e kept => answered ⟨e, kept⟩
      rw [status_cancelled waits nothing]
      exact status_cancelled (fun waits' => waits (pending.mpr waits'))
        fun e kept => nothing e ((delivered e).mpr kept)

theorem WellFormed.status_dispatch (shape : c.WellFormed) (e : InboundEnvelope) (t : Ticket) :
    (c.dispatch e).2.status t = (c.status t).hear t [e] := by
  have shape' := shape.dispatch e
  rw [TicketStatus.hear_singleton]
  rcases c.dispatch_cases e with ⟨same, missing⟩ | ⟨u, member, id, result⟩
  · rw [same, if_neg]
    rintro ⟨waits, own⟩
    exact missing t (pending_of_waiting waits) own.symm
  · rw [result] at shape' ⊢
    split
    · rename_i own
      obtain rfl := shape.eq_of_id (pending_of_waiting own.1) member (own.2.symm.trans id.symm)
      exact shape'.status_of_delivered (List.mem_append_right _ (List.mem_singleton.mpr rfl))
    · rename_i foreign
      have other : t ≠ u := by
        rintro rfl
        exact foreign ⟨shape.status_waiting member, id.symm⟩
      exact shape.status_congr shape' (by simp [other]) (by simp [other])

theorem WellFormed.status_cancelAll (shape : c.WellFormed) (t : Ticket) :
    c.cancelAll.2.status t = (c.status t).cutOff := by
  by_cases pending : t ∈ c.pending
  · rw [shape.status_waiting pending]
    refine status_cancelled nofun ?_
    intro e kept
    exact shape.delivered_settled (t, e) kept pending
  · have same : c.cancelAll.2.status t = c.status t :=
      shape.status_congr (c.cancelAll_reduces.wellFormed shape) (by simp [cancelAll, pending])
        fun _ => Iff.rfl
    have settled : c.status t ≠ .waiting := fun waits => pending (pending_of_waiting waits)
    rw [same]
    cases status : c.status t with
    | waiting => exact absurd status settled
    | _ => rfl

theorem WellFormed.status_cancel (shape : c.WellFormed) (id : RequestId) (t : Ticket) :
    (c.cancel id).2.status t = if t.id = id then (c.status t).cutOff else c.status t := by
  have shape' := (c.cancel_reduces id).wellFormed shape
  have kept : ∀ {u : Ticket}, u ∈ (c.cancel id).2.pending ↔ u ∈ c.pending ∧ u.id ≠ id := by
    simp [cancel]
  split
  · rename_i own
    by_cases pending : t ∈ c.pending
    · rw [shape.status_waiting pending]
      refine status_cancelled (fun member => (kept.mp member).2 own) ?_
      intro e delivered
      exact shape.delivered_settled (t, e) delivered pending
    · have same : (c.cancel id).2.status t = c.status t :=
        shape.status_congr shape' (iff_of_false pending fun member => pending (kept.mp member).1)
          fun _ => Iff.rfl
      have settled : c.status t ≠ .waiting := fun waits => pending (pending_of_waiting waits)
      rw [same]
      cases status : c.status t with
      | waiting => exact absurd status settled
      | _ => rfl
  · rename_i other
    refine shape.status_congr shape' ?_ fun _ => Iff.rfl
    exact ⟨fun member => kept.mpr ⟨member, other⟩, fun member => (kept.mp member).1⟩

/-- The correlator after responses were dispatched, one after the other. -/
def dispatchAll (c : Correlator) (responses : List InboundEnvelope) : Correlator :=
  responses.foldl (fun c e => (c.dispatch e).2) c

theorem WellFormed.dispatchAll (shape : c.WellFormed) (responses : List InboundEnvelope) :
    (c.dispatchAll responses).WellFormed ∧
      ∀ t, (c.dispatchAll responses).status t = (c.status t).hear t responses := by
  induction responses generalizing c with
  | nil => exact ⟨shape, fun t => (TicketStatus.hear_nil t _).symm⟩
  | cons e rest ih =>
    obtain ⟨shape', told⟩ := ih (shape.dispatch e)
    refine ⟨shape', ?_⟩
    intro t
    calc
      (c.dispatchAll (e :: rest)).status t = ((c.dispatch e).2.status t).hear t rest := told t
      _ = ((c.status t).hear t [e]).hear t rest := by rw [shape.status_dispatch]
      _ = (c.status t).hear t (e :: rest) := (TicketStatus.hear_append t [e] rest _).symm

end Correlator

/-! ## The listener -/

namespace Listener

/-- The response that the listener takes next. -/
def next? (l : Listener) (stopFirst : Bool) : Option InboundEnvelope :=
  if l.isRunning && !(l.isStopped && stopFirst) then l.queue.head? else none

/-- Whether the listener is about to end. -/
def isEnding (l : Listener) (stopFirst : Bool) : Bool :=
  l.isRunning && (l.isStopped && stopFirst || l.queue.isEmpty && (l.isStopped || !l.isOpen))

variable {l : Listener} {stopFirst : Bool}

theorem isRunning_of_next {e : InboundEnvelope} (next : l.next? stopFirst = some e) :
    l.isRunning = true := by
  by_contra ended
  simp [next?, ended] at next

theorem isEnding_cases (ending : l.isEnding stopFirst = true) :
    l.isRunning = true ∧ (l.isStopped = true ∨ l.queue = []) := by
  simp only [isEnding, Bool.and_eq_true, Bool.or_eq_true, List.isEmpty_iff] at ending
  exact ⟨ending.1, ending.2.imp And.left And.left⟩

/-- All that a listener can do. -/
inductive Step (l : Listener) (stopFirst : Bool) (c : Correlator) :
    Option (Listener × Correlator) → Prop where
  | takes (e : InboundEnvelope) (rest : List InboundEnvelope) (next : l.next? stopFirst = some e)
      (queue : l.queue = e :: rest) (lasts : l.isEnding stopFirst = false) :
      Step l stopFirst c (some ({ l with queue := rest }, (c.dispatch e).2))
  | ends (next : l.next? stopFirst = none) (ending : l.isEnding stopFirst = true) :
      Step l stopFirst c (some (l.finish c))
  | rests (next : l.next? stopFirst = none) (lasts : l.isEnding stopFirst = false) :
      Step l stopFirst c none

theorem step_cases (l : Listener) (stopFirst : Bool) (c : Correlator) :
    l.Step stopFirst c (l.step stopFirst c) := by
  obtain ⟨queue, isOpen, isStopped, isRunning⟩ := l
  cases isRunning with
  | false => exact .rests rfl rfl
  | true =>
    cases stops : isStopped && stopFirst with
    | true =>
      obtain ⟨rfl, rfl⟩ := Bool.and_eq_true_iff.mp stops
      exact .ends rfl rfl
    | false =>
      cases queue with
      | cons e rest =>
        simp only [Listener.step, stops]
        exact .takes e rest (by simp [next?, stops]) rfl (by simp [isEnding, stops])
      | nil =>
        cases left : isStopped || !isOpen with
        | true =>
          simp only [Listener.step, stops, left]
          exact .ends (by simp [next?]) (by simp [isEnding, stops, left])
        | false =>
          simp only [Listener.step, stops, left]
          exact .rests (by simp [next?]) (by simp [isEnding, stops, left])

/-- What a listener does that is left alone once the channel is closed. -/
structure Drains (l : Listener) (c : Correlator) : Prop where
  /-- Each response is dispatched once, in the order of arrival; then every pending call is
  cancelled, and the listener has ended. -/
  dispatches : l.drain c =
    ({ l with queue := [], isRunning := false }, (c.dispatchAll l.queue).cancelAll.2)
  empties : (l.drain c).2.pendingCount = 0
  answered : ∀ t ∈ c.pending, ∀ e, t.firstOf l.queue = some e →
    (l.drain c).2.status t = .delivered e
  cancelled : ∀ t ∈ c.pending, t.firstOf l.queue = none → (l.drain c).2.status t = .cancelled
  others : ∀ t, t ∉ c.pending → (l.drain c).2.status t = c.status t

theorem drain_eq {l : Listener} (running : l.isRunning = true) (notStopped : l.isStopped = false)
    (closed : l.isOpen = false) (c : Correlator) :
    l.drain c =
      ({ l with queue := [], isRunning := false }, (c.dispatchAll l.queue).cancelAll.2) := by
  obtain ⟨queue, isOpen, isStopped, isRunning⟩ := l
  cases running
  cases notStopped
  cases closed
  unfold drain
  induction queue generalizing c with
  | nil => rfl
  | cons e rest ih => exact ih (c.dispatch e).2

theorem drains {l : Listener} (running : l.isRunning = true) (notStopped : l.isStopped = false)
    (closed : l.isOpen = false) {c : Correlator} (shape : c.WellFormed) : l.Drains c := by
  have drained := drain_eq running notStopped closed c
  obtain ⟨shape', told⟩ := shape.dispatchAll l.queue
  have status : ∀ t, (l.drain c).2.status t = ((c.status t).hear t l.queue).cutOff := by
    intro t
    rw [drained, shape'.status_cancelAll, told]
  refine ⟨drained, by rw [drained]; rfl, ?_, ?_, ?_⟩
  · intro t pending e first
    rw [status, shape.status_waiting pending, TicketStatus.hear, first]
    rfl
  · intro t pending absent
    rw [status, shape.status_waiting pending, TicketStatus.hear, absent]
    rfl
  · intro t settled
    rw [status]
    have unasked : c.status t ≠ .waiting := fun waits =>
      settled (Correlator.pending_of_waiting waits)
    cases same : c.status t with
    | waiting => exact absurd same unasked
    | _ => rfl

end Listener

/-! ## Cancelled for good -/

namespace Correlator

/-- A call was registered and nothing is kept for it any more. -/
structure Lapsed (c : Correlator) (t : Ticket) : Prop where
  registered : t.serial < c.registered
  pending : t ∉ c.pending
  delivered : ∀ e, (t, e) ∉ c.delivered

theorem Lapsed.status {c : Correlator} {t : Ticket} (lapsed : c.Lapsed t) :
    c.status t = .cancelled :=
  status_cancelled lapsed.pending lapsed.delivered

theorem Lapsed.evolves {c c' : Correlator} {t : Ticket} (lapsed : c.Lapsed t)
    (evolves : c.Evolves c') : c'.Lapsed t where
  registered := Nat.lt_of_lt_of_le lapsed.registered evolves.registered_le
  pending := by
    intro pending
    rcases evolves.pending_cases pending with before | serial
    · exact lapsed.pending before
    · exact Nat.lt_irrefl _ (serial ▸ lapsed.registered)
  delivered := by
    intro e kept
    rcases evolves.delivered_cases kept with before | ⟨pending, _⟩
    · exact lapsed.delivered e before
    · exact lapsed.pending pending

theorem WellFormed.lapsed_of_cancelAll {c : Correlator} {t : Ticket} (shape : c.WellFormed)
    (pending : t ∈ c.pending) : c.cancelAll.2.Lapsed t :=
  ⟨shape.pending_registered t pending, nofun, fun e kept =>
    shape.delivered_settled (t, e) kept pending⟩

end Correlator

end ProxyConsole
