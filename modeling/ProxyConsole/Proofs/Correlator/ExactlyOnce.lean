import ProxyConsole.Proofs.Correlator.History

/-!
# A response reaches its own caller, exactly once

Whatever the order in which calls are registered, answered, cancelled, awaited, timed
out and given up, a handle ends with a response only if that response carries the
handle's own id and was the first to do so after the call was registered and while it
was pending.  No response ends two handles.
-/

set_option autoImplicit false

namespace ProxyConsole.Correlator.Session

/-- The response dispatched between `before` and `rest` is what the handle at an index ends with. -/
structure Receives (before : List SessionEvent) (e : InboundEnvelope) (rest : List SessionEvent)
    (index : Nat) : Prop where
  answers : Answers before e index
  ends : (after (before ++ .dispatch e :: rest)).Ends index (.ok e)

/-- The handle at an index has ended with a response and with nothing else, or it does so as soon as
its wait takes a look, be it one that has begun or one that is yet to begin, with any time limit. -/
structure Yields (s : Session) (index : Nat) (e : InboundEnvelope) : Prop where
  only : ∀ result, s.Ends index result → result = .ok e
  once_awaited : s.Ends index (.ok e) ∨
    ∃ t phase, s.handles[index]? = some ⟨t, phase⟩ ∧
      match phase with
      | .held => (s.run [.wait index, .look index]).Ends index (.ok e) ∧
          ∀ ms, (s.run [.waitTimeout index ms, .look index]).Ends index (.ok e)
      | .waiting _ _ => (s.happen (.look index)).Ends index (.ok e)
      | .gone => False

/-- What exactly-once correlation says of the session after a sequence of events. -/
structure ExactlyOnce (events : List SessionEvent) : Prop where
  /-- A handle that ends with a response has received the first one with its own id. -/
  own : ∀ index e, (after events).Ends index (.ok e) →
    (after events).idOf? index = some e.requestId ∧
      ∃ before rest, events = before ++ .dispatch e :: rest ∧ Receives before e rest index
  single : ∀ before e rest i j, events = before ++ .dispatch e :: rest →
    Receives before e rest i → Receives before e rest j → i = j
  once : ∀ index result result', (after events).Ends index result →
    (after events).Ends index result' → result = result'
  accepted : ∀ e, ((after events).perform (.dispatch e)).1 = .flag true ↔
    ∃ index, (after events).IsPending index e.requestId
  /-- The handle of that call yields the response, unless it is given up. -/
  yielded : ∀ e index later, (after events).IsPending index e.requestId →
    .drop index ∉ later → .abort index ∉ later →
      (after (events ++ .dispatch e :: later)).Yields index e
  discarded : ∀ e, ((after events).perform (.dispatch e)).1 = .flag false →
    (after events).happen (.dispatch e) = after events

theorem Keeps.yields {s : Session} (coherent : s.Coherent) {index : Nat} {e : InboundEnvelope}
    (keeps : s.Keeps index e) : s.Yields index e := by
  obtain ⟨t, phase, found, live, kept⟩ := keeps
  refine ⟨?_, Or.inr ⟨t, phase, found, ?_⟩⟩
  · intro result ⟨moment, member⟩
    obtain ⟨u, gone⟩ := coherent.finished_gone _ member
    rw [found] at gone
    cases gone
    exact absurd rfl live
  · cases phase with
    | held =>
      refine ⟨?_, fun ms => ?_⟩
      · exact wait_then_look coherent found kept (useHandle_held found _)
      · exact wait_then_look coherent found kept (useHandle_held found _)
    | waiting deadline limit => exact coherent.look_ends found kept
    | gone => exact absurd rfl live

theorem Yields.of_ends {s : Session} (coherent : s.Coherent) {index : Nat} {e : InboundEnvelope}
    (ended : s.Ends index (.ok e)) : s.Yields index e :=
  ⟨fun _ other => coherent.ends_unique other ended, Or.inl ended⟩

theorem dispatch_flag {s : Session} (coherent : s.Coherent) (e : InboundEnvelope) :
    (s.perform (.dispatch e)).1 = .flag true ↔ ∃ index, s.IsPending index e.requestId := by
  have answer : (s.perform (.dispatch e)).1 = .flag (s.correlator.dispatch e).1 := rfl
  rw [answer]
  rcases s.correlator.dispatch_cases e with ⟨same, missing⟩ | ⟨t, member, id, result⟩
  · rw [same]
    constructor
    · intro flag
      cases flag
    · rintro ⟨index, h, _, pending, own⟩
      exact absurd own (missing h.ticket pending)
  · rw [result]
    obtain ⟨phase, found, _⟩ := coherent.pending_held t member
    exact ⟨fun _ => ⟨t.serial, _, found, member, id⟩, fun _ => rfl⟩

theorem dispatch_keeps {s : Session} (coherent : s.Coherent) {index : Nat} {e : InboundEnvelope}
    (pending : s.IsPending index e.requestId) : (s.happen (.dispatch e)).Keeps index e := by
  obtain ⟨⟨t, phase⟩, found, member, own⟩ := pending
  have live : phase ≠ .gone := by
    obtain ⟨phase', at_, alive⟩ := coherent.pending_held t member
    have place : index = t.serial := coherent.same_place found at_
    rw [← place, found] at at_
    cases at_
    exact alive
  rcases s.correlator.dispatch_cases e with ⟨_, missing⟩ | ⟨u, member', id, result⟩
  · exact absurd own (missing t member)
  · have same : t = u := coherent.wellFormed.eq_of_id member member' (own.trans id.symm)
    refine ⟨t, phase, found, live, ?_⟩
    have delivered : (s.happen (.dispatch e)).correlator = (s.correlator.dispatch e).2 := rfl
    rw [delivered, result, same]
    simp

theorem dispatch_discards {s : Session} {e : InboundEnvelope}
    (failed : (s.perform (.dispatch e)).1 = .flag false) : s.happen (.dispatch e) = s := by
  have answer : (s.perform (.dispatch e)).1 = .flag (s.correlator.dispatch e).1 := rfl
  have effect : s.happen (.dispatch e) = { s with correlator := (s.correlator.dispatch e).2 } := rfl
  rw [answer] at failed
  rcases s.correlator.dispatch_cases e with ⟨same, _⟩ | ⟨t, _, _, result⟩
  · rw [effect, same]
  · rw [result] at failed
    cases failed

/-- Correlation is exactly-once under every schedule. -/
theorem exactlyOnce_after (events : List SessionEvent) : ExactlyOnce events where
  own := by
    intro index e ended
    obtain ⟨moment, member⟩ := ended
    obtain ⟨before, rest, split, answers⟩ := (recorded events).finished _ member e rfl
    refine ⟨?_, before, rest, split, answers, ?_⟩
    · rw [split, after_append]
      exact idOf?_run _ answers.pending.idOf?
    · rw [← split]
      exact ⟨moment, member⟩
  single := by
    intro before e rest i j _ left right
    exact left.answers.unique right.answers
  once := by
    intro index result result' left right
    exact (coherent_after events).ends_unique left right
  accepted e := dispatch_flag (coherent_after events) e
  yielded := by
    intro e index later pending notDropped notAborted
    have coherent := coherent_after events
    have coherent' := coherent_after (events ++ .dispatch e :: later)
    have kept := dispatch_keeps coherent pending
    rw [after_append] at coherent' ⊢
    rcases keeps_run (coherent.happen (.dispatch e)) later (Or.inl kept) notDropped notAborted with
      keeps | ended
    · exact keeps.yields coherent'
    · exact Yields.of_ends coherent' ended
  discarded _ failed := dispatch_discards failed

end ProxyConsole.Correlator.Session
