import ProxyConsole.Proofs.Client.Inbound

/-!
# Cancelled from outside

Beside the events of a client, the pending call with a given id may be cancelled by
anybody who knows the id.  Tickets are kept apart all the same, so the holder of a
ticket is told of the first response with its id or of a cancellation, whichever comes
first, and of nothing else.
-/

set_option autoImplicit false

namespace ProxyConsole

/-- The next thing to happen around a client. -/
inductive Happening where
  | event (e : ClientEvent)
  | cancel (id : RequestId)

/-- What the holder of a ticket can be told. -/
inductive News where
  | answered (e : InboundEnvelope)
  | cancelled

/-- What the holder of a ticket knows once it is told something: only who waits learns anything. -/
def TicketStatus.learn : TicketStatus → Option News → TicketStatus
  | .waiting, some (.answered e) => .delivered e
  | .waiting, some .cancelled => .cancelled
  | status, _ => status

@[simp]
theorem TicketStatus.learn_none (status : TicketStatus) : status.learn none = status := by
  cases status <;> rfl

theorem TicketStatus.learn_learn (first next : Option News) :
    (TicketStatus.waiting.learn first).learn next = TicketStatus.waiting.learn (first.or next) := by
  cases first with
  | none => rfl
  | some news => cases news <;> rfl

theorem TicketStatus.learn_cancelled (status : TicketStatus) :
    status.learn (some .cancelled) = status.cutOff := by
  cases status <;> rfl

theorem TicketStatus.learn_answered {t : Ticket} {e : InboundEnvelope} (status : TicketStatus) :
    status.learn (if e.requestId = t.id then some (.answered e) else none) = status.hear t [e] := by
  rw [TicketStatus.hear_singleton]
  by_cases own : e.requestId = t.id
  · rw [if_pos own]
    cases status <;> simp [own, learn]
  · simp [own]

namespace Client

def meet (cl : Client) : Happening → Client
  | .event e => cl.step e
  | .cancel id => { cl with correlator := (cl.correlator.cancel id).2 }

/-- What a sequence of happenings makes of a client. -/
def live (cl : Client) (happenings : List Happening) : Client :=
  happenings.foldl meet cl

/-- What a happening tells the holder of a ticket that waits. -/
def tells (cl : Client) (t : Ticket) : Happening → Option News
  | .event .listen =>
    match cl.listener.next? cl.stopFirst with
    | some e => if e.requestId = t.id then some (.answered e) else none
    | none => if cl.listener.isEnding cl.stopFirst then some .cancelled else none
  | .event (.dispatch e) => if e.requestId = t.id then some (.answered e) else none
  | .event .cancelPending => some .cancelled
  | .cancel id => if t.id = id then some .cancelled else none
  | _ => none

variable {cl : Client} {t : Ticket}

theorem live_concat (cl : Client) (happenings : List Happening) (h : Happening) :
    cl.live (happenings ++ [h]) = (cl.live happenings).meet h := by
  simp [live]

theorem live_append (cl : Client) (happenings later : List Happening) :
    cl.live (happenings ++ later) = (cl.live happenings).live later := by
  simp [live]

/-! ## What stays as it was -/

theorem meet_evolves (cl : Client) (h : Happening) :
    cl.correlator.Evolves (cl.meet h).correlator := by
  cases h with
  | event e => exact (cl.step_extends e).correlator
  | cancel id => exact .reduces (cl.correlator.cancel_reduces id)

theorem meet_sends (cl : Client) (h : Happening) : cl.sends <+: (cl.meet h).sends := by
  cases h with
  | event e => exact (cl.step_extends e).sends
  | cancel id => exact List.prefix_rfl

theorem live_registered_le (cl : Client) (happenings : List Happening) :
    cl.correlator.registered ≤ (cl.live happenings).correlator.registered := by
  induction happenings using List.reverseRecOn with
  | nil => exact Nat.le_refl _
  | append_singleton happenings h earlier =>
    rw [live_concat]
    exact Nat.le_trans earlier ((cl.live happenings).meet_evolves h).registered_le

theorem live_sends (cl : Client) (happenings : List Happening) :
    cl.sends <+: (cl.live happenings).sends := by
  induction happenings using List.reverseRecOn with
  | nil => exact List.prefix_rfl
  | append_singleton happenings h earlier =>
    rw [live_concat]
    exact earlier.trans ((cl.live happenings).meet_sends h)

theorem Orderly.meet (orderly : cl.Orderly) (h : Happening) : (cl.meet h).Orderly := by
  cases h with
  | event e => exact orderly.step e
  | cancel id =>
    obtain ⟨shape, distinct, older⟩ := orderly.sent
    exact ⟨⟨(cl.correlator.cancel_reduces id).wellFormed shape, distinct, older⟩, orderly.once⟩

theorem orderly_live (settings : Settings) (happenings : List Happening) :
    (live { settings } happenings).Orderly := by
  induction happenings using List.reverseRecOn with
  | nil => exact orderly_start settings
  | append_singleton happenings h earlier =>
    rw [live_concat]
    exact earlier.meet h

/-! ## What the holder of a ticket is told -/

theorem tells_of_untold (cl : Client) (t : Ticket) {e : ClientEvent} (untold : e.tells = false) :
    cl.tells t (.event e) = none := by
  cases e with
  | listen => cases untold
  | dispatch e => cases untold
  | cancelPending => cases untold
  | _ => rfl

theorem listen_learns (shape : cl.correlator.WellFormed) (t : Ticket) :
    (cl.step .listen).correlator.status t =
      (cl.correlator.status t).learn (cl.tells t (.event .listen)) := by
  have steps := cl.step_listens
  unfold tells
  generalize cl.step .listen = cl' at steps
  cases steps with
  | takes e rest next queue lasts =>
    simp only [next, TicketStatus.learn_answered]
    exact shape.status_dispatch e t
  | ends next ending =>
    simp only [next, ending, if_true, TicketStatus.learn_cancelled]
    exact shape.status_cancelAll t
  | rests next lasts => simp [next, lasts]

/-- As long as an attempt holds a ticket, it learns what it is told and nothing else. -/
theorem Orderly.status_meet (orderly : cl.Orderly) (apart : cl.TicketsApart) {h : Happening}
    (held : t ∈ cl.held) (held' : t ∈ (cl.meet h).held) :
    (cl.meet h).correlator.status t = (cl.correlator.status t).learn (cl.tells t h) := by
  have shape := orderly.sent.shape
  cases h with
  | cancel id =>
    refine (shape.status_cancel id t).trans ?_
    simp only [tells]
    split
    · rw [TicketStatus.learn_cancelled]
    · rw [TicketStatus.learn_none]
  | event e =>
    cases told : e.tells with
    | false =>
      rw [tells_of_untold cl t told, TicketStatus.learn_none]
      exact orderly.status_kept apart told held held'
    | true =>
      cases e with
      | listen => exact listen_learns shape t
      | dispatch e =>
        refine (shape.status_dispatch e t).trans ?_
        simp only [tells, TicketStatus.learn_answered]
      | cancelPending =>
        refine (shape.status_cancelAll t).trans ?_
        simp only [tells, TicketStatus.learn_cancelled]
      | _ => cases told

/-! ## Before the ids come round -/

/-- Sequence numbers and ids tell the numbers of the registrations. -/
structure Counted (cl : Client) : Prop where
  unwrapped : cl.correlator.Unwrapped
  pending : ∀ t ∈ cl.correlator.pending, t.seq.toNat = t.serial
  sends : ∀ s ∈ cl.sends, s.ticket.seq.toNat = s.ticket.serial ∧
    s.ticket.id.val.toNat = s.ticket.serial + 1

theorem counted_start (settings : Settings) : Counted { settings } :=
  ⟨Correlator.unwrapped_empty, nofun, nofun⟩

theorem Counted.registers (counted : cl.Counted) (shape : cl.correlator.WellFormed)
    (few : cl.correlator.registered < RequestId.count) {u : Ticket} {c : Correlator}
    (success : cl.correlator.allocate = some (u, c)) :
    c.Unwrapped ∧ (∀ t ∈ c.pending, t.seq.toNat = t.serial) ∧ u.seq.toNat = u.serial ∧
      u.id.val.toNat = u.serial + 1 := by
  obtain ⟨v, c', allocated, id, unwrapped⟩ := counted.unwrapped.allocate shape few
  rw [success] at allocated
  cases allocated
  obtain ⟨serial, _, pending, _, _⟩ := Correlator.allocate_cases success
  have number : u.seq.toNat = u.serial := by
    obtain ⟨_, seq, _⟩ := Correlator.allocate_sequence success
    rw [seq, counted.unwrapped.passes_eq_zero shape few, serial, ← counted.unwrapped.next]
    exact congrArg UInt64.toNat (UInt64.add_zero _)
  refine ⟨unwrapped, ?_, number, id⟩
  intro t member
  rw [pending] at member
  rcases List.mem_append.mp member with earlier | last
  · exact counted.pending t earlier
  · rw [List.mem_singleton.mp last]
    exact number

theorem meet_posts (cl : Client) (h : Happening) : cl.Posts (cl.meet h) := by
  cases h with
  | event e => exact cl.step_posts e
  | cancel id => exact .of_sends rfl (.quiet rfl rfl fun _ member => List.mem_of_mem_filter member)

theorem Counted.meet (counted : cl.Counted) (shape : cl.correlator.WellFormed) {h : Happening}
    (few : (cl.meet h).correlator.registered ≤ RequestId.count) : (cl.meet h).Counted := by
  obtain ⟨sends, more, posts⟩ := cl.meet_posts h
  have room : ∀ {u : Ticket}, cl.correlator.allocate = some (u, (cl.meet h).correlator) →
      cl.correlator.registered < RequestId.count := by
    intro u success
    obtain ⟨_, _, _, _, registered⟩ := Correlator.allocate_cases success
    omega
  cases posts with
  | quiet nextSeq registered pending =>
    rw [List.append_nil] at more
    refine ⟨counted.unwrapped.of_pending nextSeq registered pending, ?_, ?_⟩
    · exact fun t member => counted.pending t (pending t member)
    · rw [more]
      exact counted.sends
  | registers success =>
    rw [List.append_nil] at more
    obtain ⟨unwrapped, pending, _⟩ := counted.registers shape (room success) success
    exact ⟨unwrapped, pending, by rw [more]; exact counted.sends⟩
  | sends envelope success =>
    obtain ⟨unwrapped, pending, number, id⟩ := counted.registers shape (room success) success
    refine ⟨unwrapped, pending, ?_⟩
    rw [more]
    intro s member
    rcases List.mem_append.mp member with earlier | last
    · exact counted.sends s earlier
    · rw [List.mem_singleton.mp last]
      exact ⟨number, id⟩

/-- Nobody waits by hand for a ticket of the number of a request, and there are more ids
than calls were registered. -/
structure Ordinary (settings : Settings) (happenings : List Happening) : Prop where
  few : (live { settings } happenings).correlator.registered < RequestId.count
  unforged : ∀ u limit, .event (.start (.await u limit)) ∈ happenings →
    ∀ s ∈ (live { settings } happenings).sends, s.ticket.seq ≠ u.seq

section Ordinary

variable {settings : Settings} {happenings later : List Happening}

theorem Ordinary.of_append (ordinary : Ordinary settings (happenings ++ later)) :
    Ordinary settings happenings := by
  refine ⟨Nat.lt_of_le_of_lt ?_ ordinary.few, ?_⟩
  · rw [live_append]
    exact live_registered_le _ later
  · intro u limit waited s member
    refine ordinary.unforged u limit (List.mem_append_left _ waited) s ?_
    rw [live_append]
    exact (live_sends _ later).subset member

theorem Ordinary.counted (ordinary : Ordinary settings happenings) :
    (live { settings } happenings).Counted := by
  induction happenings using List.reverseRecOn with
  | nil => exact counted_start settings
  | append_singleton happenings h earlier =>
    have few := ordinary.few
    rw [live_concat] at few ⊢
    exact (earlier ordinary.of_append).meet (orderly_live settings happenings).sent.shape
      (Nat.le_of_lt few)

theorem awaits_started {index limit deadline : Nat}
    (found : (live { settings } happenings).jobs[index]? = some (.awaiting t limit deadline)) :
    .event (.start (.await t limit)) ∈ happenings := by
  induction happenings using List.reverseRecOn with
  | nil => cases found
  | append_singleton happenings h earlier =>
    rw [live_concat] at found
    cases h with
    | cancel id => exact List.mem_append_left _ (earlier found)
    | event e =>
      rcases awaiting_origin found with before | rfl
      · exact List.mem_append_left _ (earlier before)
      · exact List.mem_append_right _ (List.mem_singleton.mpr rfl)

theorem Ordinary.apart (ordinary : Ordinary settings happenings) :
    (live { settings } happenings).TicketsApart := by
  have once := (orderly_live settings happenings).once
  have sent := (orderly_live settings happenings).sent
  have counted := ordinary.counted
  refine ⟨?_, ?_⟩
  · have numbers : ((live { settings } happenings).sends.map fun s => s.ticket.seq).Nodup := by
      refine List.Nodup.map_on ?_ sent.distinct.of_map
      intro s member s' member' same
      have serial : s.ticket.serial = s'.ticket.serial := by
        rw [← (counted.sends s member).1, ← (counted.sends s' member').1, same]
      exact List.inj_on_of_nodup_map sent.distinct member member' serial
    rw [← Function.comp_def Ticket.seq, ← List.map_map] at numbers
    obtain ⟨arranged, perm, sublist⟩ := once
    exact (perm.map Ticket.seq).nodup_iff.mp ((sublist.map Ticket.seq).nodup numbers)
  · intro index u limit deadline found t held
    obtain ⟨s, member, rfl⟩ := List.mem_map.mp (once.subset held)
    exact ordinary.unforged u limit (awaits_started found) s member

/-- Before the ids come round, the id of a request is pending for that request only. -/
theorem Ordinary.dispatch_discards (ordinary : Ordinary settings happenings) {s : Sending}
    (sent : s ∈ (live { settings } happenings).sends)
    (settled : s.ticket ∉ (live { settings } happenings).correlator.pending) :
    (live { settings } happenings).correlator.contains s.ticket.id = false ∧
      ∀ e : InboundEnvelope, e.requestId = s.ticket.id →
        (live { settings } happenings).correlator.dispatch e =
          (false, (live { settings } happenings).correlator) := by
  have counted := ordinary.counted
  have apart : ∀ u ∈ (live { settings } happenings).correlator.pending, u.id ≠ s.ticket.id := by
    intro u pending same
    obtain ⟨seq, id⟩ := counted.sends s sent
    have id' := counted.unwrapped.ids u pending
    have seq' := counted.pending u pending
    have serial : u.serial = s.ticket.serial := by
      rw [same] at id'
      omega
    have number : u.seq = s.ticket.seq := UInt64.toNat_inj.mp (by rw [seq, seq', serial])
    have equal : u = s.ticket := by
      obtain ⟨uid, useq, userial⟩ := u
      cases same
      cases number
      cases serial
      rfl
    exact settled (equal ▸ pending)
  constructor
  · rw [Correlator.contains, List.any_eq_false]
    intro u pending
    simpa using apart u pending
  · intro e own
    rcases Correlator.dispatch_cases _ e with ⟨nothing, _⟩ | ⟨u, pending, same, _⟩
    · exact nothing
    · exact absurd (same.trans own) (apart u pending)

end Ordinary

end Client

end ProxyConsole
