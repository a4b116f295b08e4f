import Mathlib.Data.List.Induction
import ProxyConsole.Proofs.Since
import ProxyConsole.Proofs.Cache.Schedule

/-!
# One fetch at a time

Of the fetches that run for a signature, at most one was launched since the signature was last
forgotten.  The slot waits for that fetch if there is one, and for none otherwise, so the end of a
fetch that was overtaken by an invalidation finds nothing of its own and touches nothing.
-/

set_option autoImplicit false

namespace ProxyConsole.Cache.Session

open ProxyConsole.Positions

/-- A fetch runs for a signature. -/
def Running (s : Session) (flight : Nat) (signature : String) : Prop :=
  ∃ index, s.Leads index flight signature

/-- After the events of `before`, an event starts a fetch for a signature. -/
def Starts (flight : Nat) (signature : String) (before : List SessionEvent) (event : SessionEvent) :
    Prop :=
  ¬ (after before).Running flight signature ∧
    (after (before ++ [event])).Running flight signature

/-- A fetch was started for a signature, which was not forgotten since. -/
def Current (events : List SessionEvent) (flight : Nat) (signature : String) : Prop :=
  Since (Starts flight signature) (fun _ event => event.forgets signature = false) events

/-- What single flight says of the session after a sequence of events. -/
structure SingleFlight (events : List SessionEvent) : Prop where
  apart : ∀ i j f signature other, (after events).Leads i f signature →
    (after events).Leads j f other → i = j
  single : ∀ f g signature, (after events).Running f signature → Current events f signature →
    (after events).Running g signature → Current events g signature → f = g
  marker : ∀ f signature, ((after events).cache.slots signature).inFlight = some f ↔
    Current events f signature ∧ (after events).Running f signature
  /-- Of a fetch that runs and is not current, the signature was forgotten since its start. -/
  overtaken : ∀ f signature, (after events).Running f signature → ¬ Current events f signature →
    ∃ before start later, events = before ++ start :: later ∧ Starts f signature before start ∧
      ∃ event ∈ later, event.forgets signature = true
  undisturbed : ∀ i f signature event, (after events).Leads i f signature →
    ¬ Current events f signature → event = .advance i ∨ event = .leave i →
      (after (events ++ [event])).cache.slots = (after events).cache.slots

/-- The link between slots, fetches and callers that every event preserves. -/
structure Linked (events : List SessionEvent) : Prop where
  runs : ∀ i f signature, (after events).Leads i f signature →
    (after events).cache.flights[f]? = some .running
  apart : ∀ i j f signature other, (after events).Leads i f signature →
    (after events).Leads j f other → i = j
  marker : ∀ f signature, ((after events).cache.slots signature).inFlight = some f ↔
    Current events f signature ∧ (after events).Running f signature

/-! ## What one event changes -/

theorem current_concat {events : List SessionEvent} {event : SessionEvent} {f : Nat}
    {signature : String} : Current (events ++ [event]) f signature ↔
      Starts f signature events event ∨
        (Current events f signature ∧ event.forgets signature = false) :=
  Since.concat_iff

theorem current_concat_of_leads {events : List SessionEvent} {event : SessionEvent}
    (leads : ∀ i f signature, (after (events ++ [event])).Leads i f signature →
      (after events).Leads i f signature) {f : Nat} {signature : String} :
    Current (events ++ [event]) f signature ↔
      Current events f signature ∧ event.forgets signature = false := by
  rw [current_concat, or_iff_right]
  rintro ⟨idle, i, led⟩
  exact idle ⟨i, leads i f signature led⟩

theorem Linked.not_leads_length {events : List SessionEvent} (linked : Linked events) {i : Nat}
    {signature : String} :
    ¬ (after events).Leads i (after events).cache.flights.length signature := by
  intro led
  have running := linked.runs _ _ _ led
  simp at running

theorem Linked.of_same_leads {events : List SessionEvent} {event : SessionEvent}
    (linked : Linked events)
    (leads : ∀ i f signature, (after (events ++ [event])).Leads i f signature ↔
      (after events).Leads i f signature)
    (flights : (after (events ++ [event])).cache.flights = (after events).cache.flights)
    (slots : ∀ signature, ((after (events ++ [event])).cache.slots signature).inFlight =
      if event.forgets signature then none
      else ((after events).cache.slots signature).inFlight) : Linked (events ++ [event]) where
  runs i f signature led := by
    rw [flights]
    exact linked.runs i f signature ((leads i f signature).mp led)
  apart i j f signature other led led' :=
    linked.apart i j f signature other ((leads _ _ _).mp led) ((leads _ _ _).mp led')
  marker f signature := by
    have running : (after (events ++ [event])).Running f signature ↔
        (after events).Running f signature := exists_congr fun i => leads i f signature
    rw [current_concat_of_leads (fun i f signature => (leads i f signature).mp), running, slots]
    cases event.forgets signature with
    | true => simp
    | false => simp [linked.marker f signature]

theorem Linked.of_launch {events : List SessionEvent} {event : SessionEvent}
    (linked : Linked events) {i : Nat} {signature : String}
    (calm : ∀ other, event.forgets other = false)
    (free : (after events).cache.joinable? signature = none)
    (cache : (after (events ++ [event])).cache = (after events).cache.launch signature)
    (leads : ∀ j f other, (after (events ++ [event])).Leads j f other ↔
      (after events).Leads j f other ∨
        (j = i ∧ f = (after events).cache.flights.length ∧ other = signature)) :
    Linked (events ++ [event]) where
  runs j f other led := by
    rw [cache, flights_launch]
    rcases (leads j f other).mp led with earlier | ⟨_, rfl, _⟩
    · exact getElem?_concat_of_some _ (linked.runs j f other earlier)
    · exact List.getElem?_concat_length
  apart j k f other other' led led' := by
    rcases (leads j f other).mp led with earlier | ⟨rfl, last, _⟩
    · rcases (leads k f other').mp led' with earlier' | ⟨_, rfl, _⟩
      · exact linked.apart j k f other other' earlier earlier'
      · exact absurd earlier linked.not_leads_length
    · rcases (leads k f other').mp led' with earlier' | ⟨rfl, _, _⟩
      · subst last
        exact absurd earlier' linked.not_leads_length
      · rfl
  marker f other := by
    have vacant : ∀ g, ¬ (Current events g signature ∧ (after events).Running g signature) := by
      rintro g ⟨current, j, led⟩
      have awaited := (linked.marker g signature).mpr ⟨current, j, led⟩
      have joinable := joinable?_eq_some.mpr ⟨awaited, linked.runs j g signature led⟩
      rw [free] at joinable
      cases joinable
    rw [cache, slots_launch]
    by_cases same : other = signature
    · subst same
      rw [if_pos rfl]
      constructor
      · intro awaited
        cases awaited
        have starts : Starts (after events).cache.flights.length other events event :=
          ⟨fun ⟨j, led⟩ => linked.not_leads_length led, i,
            (leads _ _ _).mpr (Or.inr ⟨rfl, rfl, rfl⟩)⟩
        exact ⟨current_concat.mpr (Or.inl starts), starts.2⟩
      · rintro ⟨current, j, led⟩
        rcases (leads j f other).mp led with earlier | ⟨_, rfl, _⟩
        · rcases current_concat.mp current with ⟨idle, _⟩ | ⟨current', _⟩
          · exact absurd ⟨j, earlier⟩ idle
          · exact absurd ⟨current', j, earlier⟩ (vacant f)
        · rfl
    · rw [if_neg same]
      have running : (after (events ++ [event])).Running f other ↔
        (after events).Running f other := by
        refine exists_congr fun j => (leads j f other).trans (or_iff_left ?_)
        exact fun ⟨_, _, equal⟩ => same equal
      have current : Current (events ++ [event]) f other ↔ Current events f other := by
        rw [current_concat, or_iff_right, and_iff_left (calm other)]
        exact fun ⟨idle, starts⟩ => idle (running.mp starts)
      rw [running, current]
      exact linked.marker f other

theorem Linked.of_retire {events : List SessionEvent} {event : SessionEvent}
    (linked : Linked events) {i f : Nat} {signature : String} {outcome : Flight String}
    (led : (after events).Leads i f signature)
    (calm : ∀ other, event.forgets other = false)
    (flights : (after (events ++ [event])).cache.flights =
      (after events).cache.flights.set f outcome)
    (slots : ∀ other, ((after (events ++ [event])).cache.slots other).inFlight =
      if other = signature ∧ ((after events).cache.slots signature).inFlight = some f then none
      else ((after events).cache.slots other).inFlight)
    (leads : ∀ j g other, (after (events ++ [event])).Leads j g other ↔
      (after events).Leads j g other ∧ j ≠ i) : Linked (events ++ [event]) where
  runs j g other led' := by
    obtain ⟨earlier, different⟩ := (leads j g other).mp led'
    have elsewhere : f ≠ g := by
      rintro rfl
      exact different (linked.apart j i f other signature earlier led)
    rw [flights, List.getElem?_set_ne elsewhere]
    exact linked.runs j g other earlier
  apart j k g other other' led' led'' :=
    linked.apart j k g other other' ((leads _ _ _).mp led').1 ((leads _ _ _).mp led'').1
  marker g other := by
    rw [current_concat_of_leads (fun j g other led' => ((leads j g other).mp led').1),
      and_iff_left (calm other), slots]
    have running : (after (events ++ [event])).Running g other ↔
        ∃ j, (after events).Leads j g other ∧ j ≠ i := exists_congr fun j => leads j g other
    rw [running]
    by_cases retired : other = signature ∧ ((after events).cache.slots signature).inFlight = some f
    · -- the marker goes, and with it the only current fetch that ran
      rw [if_pos retired]
      obtain ⟨rfl, awaited⟩ := retired
      constructor
      · intro impossible
        cases impossible
      · rintro ⟨current, j, led', different⟩
        have awaited' := (linked.marker g other).mpr ⟨current, j, led'⟩
        rw [awaited] at awaited'
        cases awaited'
        exact absurd (linked.apart j i f other other led' led) different
    · rw [if_neg retired, linked.marker g other]
      constructor
      · rintro ⟨current, j, led'⟩
        refine ⟨current, j, led', ?_⟩
        rintro rfl
        obtain ⟨rfl, rfl⟩ := leads_unique led led'
        exact retired ⟨rfl, (linked.marker f signature).mpr ⟨current, j, led'⟩⟩
      · rintro ⟨current, j, led', _⟩
        exact ⟨current, j, led'⟩

theorem Completes.calm {s : Session} {event : SessionEvent} {f : Nat} {signature : String}
    {result : Except CallError String} (completes : s.Completes event f signature result)
    (other : String) : event.forgets other = false := by
  obtain ⟨index, _, _, rfl, _⟩ := completes
  rfl

theorem Linked.concat {events : List SessionEvent} (linked : Linked events) (event : SessionEvent) :
    Linked (events ++ [event]) := by
  have effect := (after events).happen_effect event
  rw [← after_concat] at effect
  cases effect with
  | quiet calm cache leads =>
    refine linked.of_same_leads leads (by rw [cache]) ?_
    intro signature
    rw [cache, calm signature]
    rfl
  | launches i signature calm free cache leads => exact linked.of_launch calm free cache leads
  | lands i f signature result led completes cache leads =>
    have flights : (after (events ++ [event])).cache.flights =
        (after events).cache.flights.set f (.landed result) := by
      rw [cache]
      exact flights_land ..
    refine linked.of_retire led completes.calm flights ?_ leads
    intro other
    rw [cache]
    exact inFlight_land ..
  | givesUp i f signature led cause cache leads =>
    have flights : (after (events ++ [event])).cache.flights =
        (after events).cache.flights.set f .abandoned := by
      rw [cache]
      exact flights_abandon ..
    refine linked.of_retire led (by simp [cause, SessionEvent.forgets]) flights ?_ leads
    intro other
    rw [cache]
    exact inFlight_abandon ..
  | forgets cache leads =>
    refine linked.of_same_leads leads (by rw [cache]; rfl) ?_
    intro signature
    rw [cache, slots_forget]
    split <;> rfl

theorem linked (events : List SessionEvent) : Linked events := by
  induction events using List.reverseRecOn with
  | nil =>
    have idle : ∀ i f signature, ¬ (after []).Leads i f signature := by
      rintro i f signature ⟨caller, landing, found, _⟩
      cases found
    refine ⟨fun i f signature led => absurd led (idle i f signature),
      fun i _ f signature _ led => absurd led (idle i f signature), fun f signature => ⟨?_, ?_⟩⟩
    · intro awaited
      cases awaited
    · rintro ⟨_, i, led⟩
      exact absurd led (idle i f signature)
  | append_singleton events event earlier => exact earlier.concat event

/-! ## The result -/

/-- An overtaken fetch comes to its end without touching any slot. -/
theorem end_undisturbed {events : List SessionEvent} {i f : Nat} {signature : String}
    (led : (after events).Leads i f signature) (overtaken : ¬ Current events f signature)
    {event : SessionEvent} (ends : event = .advance i ∨ event = .leave i) :
    (after (events ++ [event])).cache.slots = (after events).cache.slots := by
  have unawaited : ((after events).cache.slots signature).inFlight ≠ some f :=
    fun awaited => overtaken (((linked events).marker f signature).mp awaited).1
  obtain ⟨caller, landing, found, phase, rfl⟩ := led
  obtain ⟨wish, _⟩ := caller
  cases phase
  rw [after_concat]
  rcases ends with rfl | rfl
  · simp only [happen, stepCaller, found]
    by_cases due : landing ≤ (after events).now
    · simp only [if_pos due]
      exact land_overtaken unawaited
    · simp only [if_neg due]
      rfl
  · simp only [happen, leave, found]
    exact abandon_overtaken unawaited

theorem running_started (events : List SessionEvent) {f : Nat} {signature : String}
    (running : (after events).Running f signature) :
    ∃ before start later, events = before ++ start :: later ∧ Starts f signature before start := by
  induction events using List.reverseRecOn with
  | nil =>
    obtain ⟨i, caller, landing, found, _⟩ := running
    cases found
  | append_singleton events event earlier =>
    by_cases before : (after events).Running f signature
    · obtain ⟨first, start, later, split, starts⟩ := earlier before
      exact ⟨first, start, later ++ [event], by simp [split], starts⟩
    · exact ⟨events, event, [], rfl, before, running⟩

theorem forgotten_since_start {events : List SessionEvent} {f : Nat} {signature : String}
    (running : (after events).Running f signature) (overtaken : ¬ Current events f signature) :
    ∃ before start later, events = before ++ start :: later ∧ Starts f signature before start ∧
      ∃ event ∈ later, event.forgets signature = true := by
  obtain ⟨before, start, later, split, starts⟩ := running_started events running
  refine ⟨before, start, later, split, starts, ?_⟩
  by_contra remembered
  refine overtaken ⟨before, start, later, split, starts, ?_⟩
  rintro between next rest rfl
  cases forgets : next.forgets signature with
  | false => rfl
  | true => exact absurd ⟨next, by simp, forgets⟩ remembered

/-- Under every schedule, a signature has one current fetch at most, and its slot knows it. -/
theorem singleFlight_after (events : List SessionEvent) : SingleFlight events where
  apart := (linked events).apart
  single f g signature running current running' current' := by
    have awaited := ((linked events).marker f signature).mpr ⟨current, running⟩
    have awaited' := ((linked events).marker g signature).mpr ⟨current', running'⟩
    exact Option.some.inj (awaited.symm.trans awaited')
  marker := (linked events).marker
  overtaken _ _ running overtaken := forgotten_since_start running overtaken
  undisturbed _ _ _ _ led overtaken ends := end_undisturbed led overtaken ends

end ProxyConsole.Cache.Session
