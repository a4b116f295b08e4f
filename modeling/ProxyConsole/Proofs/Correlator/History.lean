import Mathlib.Data.List.Induction
import ProxyConsole.Proofs.Correlator.Coherence

/-!
# The history behind a session

Each pending call, each kept response and each wait that ended with a response is traced back to the
events that brought it about.
-/

set_option autoImplicit false

namespace ProxyConsole.Correlator.Session

open ProxyConsole.Positions

/-- The id of the handle at an index. -/
def idOf? (s : Session) (index : Nat) : Option RequestId :=
  (s.handles[index]?).map fun h => h.ticket.id

/-- The call of the handle at an index is pending, under the given id. -/
def IsPending (s : Session) (index : Nat) (id : RequestId) : Prop :=
  ∃ h, s.handles[index]? = some h ∧ h.ticket ∈ s.correlator.pending ∧ h.ticket.id = id

/-- The wait of the handle at an index is over, with the given result. -/
def Ends (s : Session) (index : Nat) (result : Except WaitError InboundEnvelope) : Prop :=
  ∃ moment, (⟨index, moment, result⟩ : Finished) ∈ s.finished

/-- After the events of `start`, a registration makes the handle at an index. -/
def Registers (start : List SessionEvent) (index : Nat) : Prop :=
  (after start).handles.length = index ∧ (after (start ++ [.allocate])).handles.length = index + 1

/-- Since the handle at an index was registered, no response with the given id was dispatched. -/
def Unanswered (events : List SessionEvent) (index : Nat) (id : RequestId) : Prop :=
  ∃ start between, events = start ++ .allocate :: between ∧ Registers start index ∧
    ∀ other, .dispatch other ∈ between → other.requestId ≠ id

/-- A response dispatched after the events of `before` is the first for the handle at an
index, whose call is then pending. -/
structure Answers (before : List SessionEvent) (e : InboundEnvelope) (index : Nat) : Prop where
  pending : (after before).IsPending index e.requestId
  first : Unanswered before index e.requestId

/-! ## What one event adds -/

theorem Turn.pending_cases {s s' : Session} {event : SessionEvent} (turn : Turn s event s')
    (coherent : s.Coherent) {t : Ticket} (member : t ∈ s'.correlator.pending) :
    (t ∈ s.correlator.pending ∧ ∀ e, event = .dispatch e → e.requestId ≠ t.id) ∨
      (event = .allocate ∧ t.serial = s.handles.length ∧
        s'.handles.length = s.handles.length + 1) := by
  cases turn with
  | idle quiet => exact Or.inl ⟨member, fun e same => absurd same (quiet e)⟩
  | registers u c success =>
    obtain ⟨serial, _, pending, _, _⟩ := allocate_cases success
    simp only [pending, List.mem_append, List.mem_singleton] at member
    rcases member with earlier | rfl
    · exact Or.inl ⟨earlier, by simp⟩
    · exact Or.inr ⟨rfl, serial.trans coherent.registered, by simp⟩
  | dispatches e =>
    refine Or.inl ?_
    rcases s.correlator.dispatch_cases e with ⟨same, missing⟩ | ⟨u, found, id, result⟩
    · simp only [same] at member
      refine ⟨member, ?_⟩
      intro other same equal
      cases same
      exact missing t member equal.symm
    · simp only [result] at member
      obtain ⟨earlier, different⟩ := List.mem_filter.mp member
      refine ⟨earlier, ?_⟩
      intro other same equal
      cases same
      have shared := coherent.wellFormed.eq_of_id earlier found (equal.symm.trans id.symm)
      simp [shared] at different
  | cancels id => exact Or.inl ⟨List.mem_of_mem_filter member, by simp⟩
  | cancelsAll => cases member
  | givesUp index u phase found live cause =>
    have quiet : ∀ e, event ≠ .dispatch e := by
      rcases cause with rfl | rfl <;> simp
    exact Or.inl ⟨List.mem_of_mem_filter member, fun e same => absurd same (quiet e)⟩
  | waits index u deadline limit found cause =>
    have quiet : ∀ e, event ≠ .dispatch e := by
      rcases cause with rfl | ⟨ms, rfl⟩ <;> simp
    exact Or.inl ⟨member, fun e same => absurd same (quiet e)⟩
  | finishes index u deadline limit result found decided =>
    exact Or.inl ⟨(s.correlator.conclude_reduces u).pending.subset member, by simp⟩
  | passes moment => exact Or.inl ⟨member, by simp⟩

theorem Turn.delivered_cases {s s' : Session} {event : SessionEvent} (turn : Turn s event s')
    {d : Ticket × InboundEnvelope} (member : d ∈ s'.correlator.delivered) :
    d ∈ s.correlator.delivered ∨
      (event = .dispatch d.2 ∧ d.1 ∈ s.correlator.pending ∧ d.1.id = d.2.requestId) := by
  cases turn with
  | idle quiet => exact Or.inl member
  | registers u c success =>
    obtain ⟨_, _, _, delivered, _⟩ := allocate_cases success
    simp only [delivered] at member
    exact Or.inl member
  | dispatches e =>
    rcases s.correlator.dispatch_cases e with ⟨same, _⟩ | ⟨u, found, id, result⟩
    · simp only [same] at member
      exact Or.inl member
    · simp only [result, List.mem_append, List.mem_singleton] at member
      rcases member with earlier | rfl
      · exact Or.inl earlier
      · exact Or.inr ⟨rfl, found, id⟩
  | cancels id => exact Or.inl member
  | cancelsAll => exact Or.inl member
  | givesUp index u phase found live cause => exact Or.inl (List.mem_of_mem_filter member)
  | waits index u deadline limit found cause => exact Or.inl member
  | finishes index u deadline limit result found decided =>
    exact Or.inl ((s.correlator.conclude_reduces u).delivered.subset member)
  | passes moment => exact Or.inl member

theorem waitResult?_ok {c : Correlator} {now : Nat} {t : Ticket} {deadline : Option Nat}
    {limit : Duration} {e : InboundEnvelope}
    (decided : waitResult? c now t deadline limit = some (.ok e)) : (t, e) ∈ c.delivered := by
  unfold waitResult? at decided
  split at decided
  · rename_i status
    cases decided
    exact status_delivered status
  · cases decided
  · split at decided
    · split at decided <;> cases decided
    · cases decided

theorem Turn.finished_cases {s s' : Session} {event : SessionEvent} (turn : Turn s event s')
    (coherent : s.Coherent) {f : Finished} (member : f ∈ s'.finished) :
    f ∈ s.finished ∨
      ∀ e, f.result = .ok e → ∃ t, t.serial = f.handle ∧ (t, e) ∈ s.correlator.delivered := by
  cases turn with
  | finishes index t deadline limit result found decided =>
    rcases List.mem_append.mp member with earlier | last
    · exact Or.inl earlier
    · refine Or.inr ?_
      intro e success
      rw [List.mem_singleton.mp last] at success ⊢
      cases success
      exact ⟨t, coherent.serial index _ found, waitResult?_ok decided⟩
  | _ => exact Or.inl member

theorem Turn.ends {s s' : Session} {event : SessionEvent} (turn : Turn s event s') {index : Nat}
    {result : Except WaitError InboundEnvelope} (ended : s.Ends index result) :
    s'.Ends index result := by
  obtain ⟨moment, member⟩ := ended
  cases turn with
  | finishes _ t deadline limit result' found decided =>
    exact ⟨moment, List.mem_append_left _ member⟩
  | _ => exact ⟨moment, member⟩

theorem Turn.idOf? {s s' : Session} {event : SessionEvent} (turn : Turn s event s') {index : Nat}
    {id : RequestId} (own : s.idOf? index = some id) : s'.idOf? index = some id := by
  obtain ⟨h, found, same⟩ := Option.map_eq_some_iff.mp own
  have replaced : ∀ {i : Nat} {t : Ticket} {phase : HandlePhase} (phase' : HandlePhase),
      s.handles[i]? = some ⟨t, phase⟩ →
        ((s.handles.set i ⟨t, phase'⟩)[index]?).map (fun h => h.ticket.id) = some id := by
    intro i t phase phase' at_
    by_cases here : index = i
    · subst here
      rw [at_] at found
      cases found
      rw [getElem?_set_of_some _ at_]
      exact congrArg some same
    · rw [List.getElem?_set_ne (Ne.symm here), found]
      exact congrArg some same
  cases turn with
  | registers t c success =>
    simp only [Session.idOf?, getElem?_concat_of_some _ found, Option.map_some, same]
  | givesUp i t phase at_ live cause => exact replaced _ at_
  | waits i t deadline limit at_ cause => exact replaced _ at_
  | finishes i t deadline limit result at_ decided => exact replaced _ at_
  | _ => exact own

/-! ## What the whole history shows -/

theorem Unanswered.concat {events : List SessionEvent} {index : Nat} {id : RequestId}
    (unanswered : Unanswered events index id) {event : SessionEvent}
    (other : ∀ e, event = .dispatch e → e.requestId ≠ id) :
    Unanswered (events ++ [event]) index id := by
  obtain ⟨start, between, split, registers, none_⟩ := unanswered
  refine ⟨start, between ++ [event], by simp [split], registers, ?_⟩
  intro e member
  rcases List.mem_append.mp member with earlier | last
  · exact none_ e earlier
  · exact other e (List.mem_singleton.mp last).symm

/-- Some response of the history is the first for the handle at an index. -/
def Answered (events : List SessionEvent) (index : Nat) (e : InboundEnvelope) : Prop :=
  ∃ before rest, events = before ++ .dispatch e :: rest ∧ Answers before e index

theorem Answered.concat {events : List SessionEvent} {index : Nat} {e : InboundEnvelope}
    (answered : Answered events index e) (event : SessionEvent) :
    Answered (events ++ [event]) index e := by
  obtain ⟨before, rest, split, answers⟩ := answered
  exact ⟨before, rest ++ [event], by simp [split], answers⟩

/-- The history behind what a session holds. -/
structure Recorded (events : List SessionEvent) : Prop where
  pending : ∀ t ∈ (after events).correlator.pending, Unanswered events t.serial t.id
  delivered : ∀ d ∈ (after events).correlator.delivered, Answered events d.1.serial d.2
  finished : ∀ f ∈ (after events).finished, ∀ e, f.result = .ok e → Answered events f.handle e

theorem Recorded.concat {events : List SessionEvent} (recorded : Recorded events)
    (event : SessionEvent) : Recorded (events ++ [event]) := by
  have turn := (after events).happen_turn event
  have coherent := coherent_after events
  rw [← after_concat] at turn
  refine ⟨?_, ?_, ?_⟩
  · intro t member
    rcases turn.pending_cases coherent member with ⟨earlier, other⟩ | ⟨rfl, serial, length⟩
    · exact (recorded.pending t earlier).concat other
    · exact ⟨events, [], rfl, ⟨serial.symm, by rw [length, serial]⟩, by simp⟩
  · intro d member
    rcases turn.delivered_cases member with earlier | ⟨rfl, moved, id⟩
    · exact (recorded.delivered d earlier).concat event
    · obtain ⟨phase, found, _⟩ := coherent.pending_held d.1 moved
      refine ⟨events, [], rfl, ⟨⟨_, found, moved, id⟩, ?_⟩⟩
      rw [← id]
      exact recorded.pending d.1 moved
  · intro f member e success
    rcases turn.finished_cases coherent member with earlier | taken
    · exact (recorded.finished f earlier e success).concat event
    · obtain ⟨t, serial, delivered⟩ := taken e success
      rw [← serial]
      exact (recorded.delivered (t, e) delivered).concat event

theorem recorded (events : List SessionEvent) : Recorded events := by
  induction events using List.reverseRecOn with
  | nil => exact ⟨by simp [after, run], by simp [after, run], by simp [after, run]⟩
  | append_singleton events event ih => exact ih.concat event

theorem idOf?_run {s : Session} (events : List SessionEvent) {index : Nat} {id : RequestId}
    (own : s.idOf? index = some id) : (s.run events).idOf? index = some id := by
  induction events generalizing s with
  | nil => exact own
  | cons event rest ih => exact ih ((s.happen_turn event).idOf? own)

theorem IsPending.idOf? {s : Session} {index : Nat} {id : RequestId}
    (pending : s.IsPending index id) : s.idOf? index = some id := by
  obtain ⟨h, found, _, same⟩ := pending
  simp only [Session.idOf?, found, Option.map_some, same]

theorem Answers.unique {before : List SessionEvent} {e : InboundEnvelope} {i j : Nat}
    (left : Answers before e i) (right : Answers before e j) : i = j := by
  have coherent := coherent_after before
  obtain ⟨h, foundLeft, pendingLeft, idLeft⟩ := left.pending
  obtain ⟨k, foundRight, pendingRight, idRight⟩ := right.pending
  have same : h.ticket = k.ticket :=
    coherent.wellFormed.eq_of_id pendingLeft pendingRight (idLeft.trans idRight.symm)
  calc
    i = h.ticket.serial := (coherent.serial i h foundLeft).symm
    _ = k.ticket.serial := by rw [same]
    _ = j := coherent.serial j k foundRight

theorem Coherent.ends_unique {s : Session} (coherent : s.Coherent) {index : Nat}
    {result result' : Except WaitError InboundEnvelope} (left : s.Ends index result)
    (right : s.Ends index result') : result = result' := by
  obtain ⟨moment, memberLeft⟩ := left
  obtain ⟨moment', memberRight⟩ := right
  have same := List.inj_on_of_nodup_map coherent.finished_nodup memberLeft memberRight rfl
  cases same
  rfl

/-! ## From the dispatch to the end of the wait -/

/-- A response is kept for the handle at an index, which is still in use. -/
def Keeps (s : Session) (index : Nat) (e : InboundEnvelope) : Prop :=
  ∃ t phase, s.handles[index]? = some ⟨t, phase⟩ ∧ phase ≠ .gone ∧
    (t, e) ∈ s.correlator.delivered

theorem Coherent.look_ends {s : Session} (coherent : s.Coherent) {index : Nat} {t : Ticket}
    {deadline : Option Nat} {limit : Duration} {e : InboundEnvelope}
    (found : s.handles[index]? = some ⟨t, .waiting deadline limit⟩)
    (kept : (t, e) ∈ s.correlator.delivered) : (s.happen (.look index)).Ends index (.ok e) := by
  have decided : waitResult? s.correlator s.now t deadline limit = some (.ok e) := by
    simp only [waitResult?, coherent.wellFormed.status_of_delivered kept]
  refine ⟨s.now, ?_⟩
  have finishes : s.happen (.look index) = s.finishWait index t (.ok e) := by
    simp only [Session.happen, settleHandle_waiting found, decided]
  rw [finishes]
  exact List.mem_append_right _ (List.mem_singleton.mpr rfl)

theorem wait_then_look {s : Session} (coherent : s.Coherent) {index : Nat} {t : Ticket}
    {e : InboundEnvelope} (found : s.handles[index]? = some ⟨t, .held⟩)
    (kept : (t, e) ∈ s.correlator.delivered) {event : SessionEvent} {deadline : Option Nat}
    {limit : Duration} (begins : s.happen event = s.setPhase index t (.waiting deadline limit)) :
    (s.run [event, .look index]).Ends index (.ok e) := by
  have coherent' := coherent.happen event
  have at_ : (s.happen event).handles[index]? = some ⟨t, .waiting deadline limit⟩ := by
    rw [begins]
    exact getElem?_set_of_some _ found
  have kept' : (t, e) ∈ (s.happen event).correlator.delivered := by
    rw [begins]
    exact kept
  exact coherent'.look_ends at_ kept'

theorem useHandle_held {s : Session} {index : Nat} {t : Ticket}
    (found : s.handles[index]? = some ⟨t, .held⟩) (use : Ticket → Session) :
    (s.useHandle index use).2 = use t := by
  unfold useHandle
  rw [found]

/-- A kept response stays for a handle that is not given up, until the handle ends with it. -/
theorem Turn.keeps {s s' : Session} {event : SessionEvent} (turn : Turn s event s')
    (coherent : s.Coherent) {index : Nat} {e : InboundEnvelope} (keeps : s.Keeps index e)
    (notDropped : event ≠ .drop index) (notAborted : event ≠ .abort index) :
    s'.Keeps index e ∨ s'.Ends index (.ok e) := by
  obtain ⟨t, phase, found, live, kept⟩ := keeps
  cases turn with
  | idle quiet => exact Or.inl ⟨t, phase, found, live, kept⟩
  | registers u c success =>
    obtain ⟨_, _, _, delivered, _⟩ := allocate_cases success
    refine Or.inl ⟨t, phase, getElem?_concat_of_some _ found, live, ?_⟩
    simpa only [delivered] using kept
  | dispatches other =>
    refine Or.inl ⟨t, phase, found, live, ?_⟩
    rcases s.correlator.dispatch_cases other with ⟨same, _⟩ | ⟨u, _, _, result⟩
    · simpa only [same] using kept
    · simp only [result]
      exact List.mem_append_left _ kept
  | cancels id => exact Or.inl ⟨t, phase, found, live, kept⟩
  | cancelsAll => exact Or.inl ⟨t, phase, found, live, kept⟩
  | givesUp i u phase' at_ live' cause =>
    have other : index ≠ i := by
      rintro rfl
      rcases cause with same | same
      · exact notDropped same
      · exact notAborted same
    have different : t ≠ u := by
      rintro rfl
      exact other (coherent.same_place found at_)
    refine Or.inl ⟨t, phase, ?_, live, mem_collect different kept⟩
    simpa only [giveUp, setPhase, List.getElem?_set_ne (Ne.symm other)] using found
  | waits i u deadline limit at_ cause =>
    by_cases same : index = i
    · subst same
      rw [found] at at_
      cases at_
      exact Or.inl ⟨t, _, getElem?_set_of_some _ found, by simp, kept⟩
    · refine Or.inl ⟨t, phase, ?_, live, kept⟩
      simpa only [setPhase, List.getElem?_set_ne (Ne.symm same)] using found
  | finishes i u deadline limit result at_ decided =>
    by_cases same : index = i
    · subst same
      rw [found] at at_
      cases at_
      have finished : (s.happen (.look index)) = s.finishWait index t result := by
        simp only [happen, settleHandle_waiting found, decided]
      rw [← finished]
      exact Or.inr (coherent.look_ends found kept)
    · have different : t ≠ u := by
        rintro rfl
        exact same (coherent.same_place found at_)
      refine Or.inl ⟨t, phase, ?_, live, mem_conclude different kept⟩
      simpa only [finishWait, List.getElem?_set_ne (Ne.symm same)] using found
  | passes moment => exact Or.inl ⟨t, phase, found, live, kept⟩

theorem keeps_run {s : Session} (coherent : s.Coherent) (later : List SessionEvent) {index : Nat}
    {e : InboundEnvelope} (keeps : s.Keeps index e ∨ s.Ends index (.ok e))
    (notDropped : .drop index ∉ later) (notAborted : .abort index ∉ later) :
    (s.run later).Keeps index e ∨ (s.run later).Ends index (.ok e) := by
  induction later generalizing s with
  | nil => exact keeps
  | cons event rest ih =>
    have turn := s.happen_turn event
    rw [List.mem_cons, not_or] at notDropped notAborted
    refine ih (coherent.happen event) ?_ notDropped.2 notAborted.2
    rcases keeps with kept | ended
    · exact turn.keeps coherent kept (Ne.symm notDropped.1) (Ne.symm notAborted.1)
    · exact Or.inr (turn.ends ended)

end ProxyConsole.Correlator.Session
