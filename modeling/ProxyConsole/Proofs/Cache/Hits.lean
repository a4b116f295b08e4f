import ProxyConsole.Proofs.Cache.SingleFlight

/-!
# A hit is a fresh value that was not forgotten

The value kept under a signature is that of the latest fetch that was current when it
succeeded, if the signature was not forgotten since.  A caller that finds it young
enough returns it at once; every other caller follows or leads a fetch.
-/

set_option autoImplicit false

namespace ProxyConsole.Cache.Session

open ProxyConsole.Positions

/-- After the events of `before`, an event lets a current fetch succeed. -/
def Succeeds (signature value : String) (before : List SessionEvent) (event : SessionEvent) :
    Prop :=
  ∃ flight, Current before flight signature ∧
    (after before).Completes event flight signature (.ok value)

/-- Of the fetches that succeeded while current, the latest brought a value at some moment, and the
signature was not forgotten since. -/
def Latest (events : List SessionEvent) (signature value : String) (moment : Nat) : Prop :=
  Since (fun before event => Succeeds signature value before event ∧ (after before).now = moment)
    (fun before event => event.forgets signature = false ∧
      ∀ other, ¬ Succeeds signature other before event) events

/-- A caller that arrives returns a value at once and has nothing to do with any fetch. -/
structure ServedAtOnce (s : Session) (wish : Wish) (value : String) : Prop where
  returned : (s.happen (.arrive wish)).returned = s.returned ++ [⟨wish.id, s.now, .ok value⟩]
  callers : (s.happen (.arrive wish)).callers = s.callers ++ [⟨wish, .over⟩]
  fetched : (s.happen (.arrive wish)).fetched = s.fetched
  cache : (s.happen (.arrive wish)).cache = s.cache

/-- A caller that arrives stays, for a fetch of its own or of another caller that runs. -/
structure TakesPart (s : Session) (wish : Wish) : Prop where
  returned : (s.happen (.arrive wish)).returned = s.returned
  part : ∃ phase flight, (s.happen (.arrive wish)).callers = s.callers ++ [⟨wish, phase⟩] ∧
    (s.happen (.arrive wish)).Running flight wish.signature ∧
    (phase = .following flight ∨ ∃ landing, phase = .fetching flight landing)

/-- What the contents of the cache are after a sequence of events. -/
structure FreshHits (events : List SessionEvent) : Prop where
  stored : ∀ signature value moment, ((after events).cache.slots signature).entry =
    some ⟨value, moment⟩ ↔ Latest events signature value moment
  past : ∀ signature value moment, Latest events signature value moment →
    moment ≤ (after events).now
  hit : ∀ wish value, (after events).ServedAtOnce wish value ↔
    ∃ moment, Latest events wish.signature value moment ∧ (after events).now - moment < wish.ttl
  miss : ∀ wish, (∀ value moment, Latest events wish.signature value moment →
    wish.ttl ≤ (after events).now - moment) → (after events).TakesPart wish
  failed : ∀ event flight signature e, (after events).Completes event flight signature (.error e) →
    ∀ other, ((after (events ++ [event])).cache.slots other).entry =
      ((after events).cache.slots other).entry
  aborted : ∀ index other, ((after (events ++ [.leave index])).cache.slots other).entry =
    ((after events).cache.slots other).entry
  peek : ∀ signature value, ((after events).perform (.peek signature)).1 = some value ↔
    ∃ moment, Latest events signature value moment

/-! ## Completion -/

theorem Completes.leads {s : Session} {event : SessionEvent} {f : Nat} {signature : String}
    {result : Except CallError String} (completes : s.Completes event f signature result) :
    ∃ i, event = .advance i ∧ s.Leads i f signature := by
  obtain ⟨index, caller, landing, advance, found, phase, _, own, _⟩ := completes
  exact ⟨index, advance, caller, landing, found, phase, own⟩

theorem Completes.unique {s : Session} {event : SessionEvent} {f g : Nat}
    {signature other : String} {result result' : Except CallError String}
    (completes : s.Completes event f signature result)
    (completes' : s.Completes event g other result') :
    f = g ∧ signature = other ∧ result = result' := by
  obtain ⟨index, caller, landing, rfl, found, phase, _, rfl, rfl⟩ := completes
  obtain ⟨index', caller', landing', advance, found', phase', _, rfl, rfl⟩ := completes'
  cases advance
  rw [found] at found'
  cases found'
  rw [phase] at phase'
  cases phase'
  exact ⟨rfl, rfl, rfl⟩

theorem Completes.happen_eq {s : Session} {event : SessionEvent} {f : Nat} {signature : String}
    {result : Except CallError String} (completes : s.Completes event f signature result) :
    (s.happen event).cache = s.cache.land s.now signature f result ∧
      ∃ i, s.Leads i f signature ∧ ¬ (s.happen event).Leads i f signature := by
  obtain ⟨index, ⟨wish, _⟩, landing, rfl, found, phase, due, rfl, rfl⟩ := completes
  cases phase
  have result : s.happen (.advance index) =
      { s with cache := s.cache.land s.now wish.signature f wish.fetchResult }.finish index
        ⟨wish, .fetching f landing⟩ wish.fetchResult := by
    simp only [happen, stepCaller, found, if_pos due, Option.getD_some]
  rw [result]
  refine ⟨rfl, index, ⟨_, landing, found, rfl, rfl⟩, ?_⟩
  intro led
  have stays := (leads_setPhase_idle (s := { s with cache := _ }) found (by simp)).mp led
  exact stays.2 rfl

theorem not_completes_of_leads {events : List SessionEvent} {event : SessionEvent}
    (leads : ∀ i f signature, (after events).Leads i f signature →
      (after (events ++ [event])).Leads i f signature)
    {f : Nat} {signature : String} {result : Except CallError String} :
    ¬ (after events).Completes event f signature result := by
  intro completes
  obtain ⟨_, i, led, gone⟩ := completes.happen_eq
  rw [← after_concat] at gone
  exact gone (leads i f signature led)

theorem succeeds_iff {events : List SessionEvent} {event : SessionEvent} {f : Nat}
    {signature : String} {result : Except CallError String}
    (completes : (after events).Completes event f signature result) {other value : String} :
    Succeeds other value events event ↔
      other = signature ∧ result = .ok value ∧
        ((after events).cache.slots signature).inFlight = some f := by
  constructor
  · rintro ⟨g, current, completes'⟩
    obtain ⟨rfl, rfl, rfl⟩ := completes.unique completes'
    obtain ⟨i, _, led⟩ := completes.leads
    exact ⟨rfl, rfl, ((linked events).marker f signature).mpr ⟨current, i, led⟩⟩
  · rintro ⟨rfl, rfl, awaited⟩
    exact ⟨f, (((linked events).marker f other).mp awaited).1, completes⟩

/-! ## The stored value -/

/-- What is stored under each signature is the latest success. -/
def Stored (events : List SessionEvent) : Prop :=
  ∀ signature value moment, ((after events).cache.slots signature).entry = some ⟨value, moment⟩ ↔
    Latest events signature value moment

theorem latest_concat_of_none {events : List SessionEvent} {event : SessionEvent}
    {signature value : String} {moment : Nat}
    (none : ∀ other, ¬ Succeeds signature other events event) :
    Latest (events ++ [event]) signature value moment ↔
      Latest events signature value moment ∧ event.forgets signature = false := by
  rw [Latest, Since.concat_iff, or_iff_right (fun now => none value now.1), and_iff_left none]
  rfl

theorem latest_concat_of_success {events : List SessionEvent} {event : SessionEvent}
    {signature value value' : String} {moment : Nat}
    (success : Succeeds signature value' events event) :
    Latest (events ++ [event]) signature value moment ↔
      Succeeds signature value events event ∧ (after events).now = moment := by
  rw [Latest, Since.concat_iff, or_iff_left]
  rintro ⟨_, _, none⟩
  exact none value' success

theorem Stored.of_none {events : List SessionEvent} {event : SessionEvent} (stored : Stored events)
    (none : ∀ signature value, ¬ Succeeds signature value events event)
    (slots : ∀ signature, ((after (events ++ [event])).cache.slots signature).entry =
      if event.forgets signature then Option.none
      else ((after events).cache.slots signature).entry) : Stored (events ++ [event]) := by
  intro signature value moment
  rw [latest_concat_of_none (none signature), slots]
  cases event.forgets signature with
  | true => simp
  | false => simp [stored signature value moment]

theorem Stored.of_land {events : List SessionEvent} {event : SessionEvent} (stored : Stored events)
    {f : Nat} {signature : String} {result : Except CallError String}
    (completes : (after events).Completes event f signature result) :
    Stored (events ++ [event]) := by
  intro other value moment
  have cache := completes.happen_eq.1
  rw [← after_concat] at cache
  by_cases success : ∃ value', Succeeds other value' events event
  · obtain ⟨value', success⟩ := success
    obtain ⟨rfl, rfl, awaited⟩ := (succeeds_iff completes).mp success
    rw [latest_concat_of_success success, succeeds_iff completes, cache, land_awaited awaited,
      slots_setSlot]
    simp [awaited]
  · have none : ∀ value', ¬ Succeeds other value' events event := not_exists.mp success
    rw [latest_concat_of_none none, and_iff_left (completes.calm other), cache]
    have same :
        (((after events).cache.land (after events).now signature f result).slots other).entry =
        ((after events).cache.slots other).entry := by
      by_cases awaited : ((after events).cache.slots signature).inFlight = some f
      · rw [land_awaited awaited, slots_setSlot]
        split
        · rename_i equal
          subst equal
          cases result with
          | error e => rfl
          | ok value' =>
            exact absurd ((succeeds_iff completes).mpr ⟨rfl, rfl, awaited⟩) (none value')
        · rfl
      · rw [land_overtaken awaited]
    rw [same]
    exact stored other value moment

theorem Stored.concat {events : List SessionEvent} (stored : Stored events) (event : SessionEvent) :
    Stored (events ++ [event]) := by
  have effect := (after events).happen_effect event
  rw [← after_concat] at effect
  cases effect with
  | quiet calm cache leads =>
    refine stored.of_none ?_ ?_
    · rintro signature value ⟨f, _, completes⟩
      exact not_completes_of_leads (fun i f signature => (leads i f signature).mpr) completes
    · intro signature
      rw [cache, calm signature]
      rfl
  | launches i signature calm free cache leads =>
    refine stored.of_none ?_ ?_
    · rintro other value ⟨f, _, completes⟩
      exact not_completes_of_leads (fun j g other led => (leads j g other).mpr (Or.inl led))
        completes
    · intro other
      rw [cache, calm other, entry_launch]
      rfl
  | lands i f signature result led completes cache leads => exact stored.of_land completes
  | givesUp i f signature led cause cache leads =>
    refine stored.of_none ?_ ?_
    · rintro other value ⟨g, _, completes⟩
      obtain ⟨_, advance, _⟩ := completes.leads
      rw [cause] at advance
      cases advance
    · intro other
      rw [cache, entry_abandon, cause]
      rfl
  | forgets cache leads =>
    refine stored.of_none ?_ ?_
    · rintro signature value ⟨f, _, completes⟩
      exact not_completes_of_leads (fun i f signature => (leads i f signature).mpr) completes
    · intro signature
      rw [cache, slots_forget]
      split <;> rfl

theorem stored (events : List SessionEvent) : Stored events := by
  induction events using List.reverseRecOn with
  | nil =>
    intro signature value moment
    constructor
    · intro kept
      cases kept
    · intro latest
      exact absurd latest Since.not_nil
  | append_singleton events event earlier => exact earlier.concat event

/-! ## Time -/

theorem now_lookUp (s : Session) (i : Nat) (caller : Caller) : (s.lookUp i caller).now = s.now := by
  rcases s.lookUp_cases i caller with ⟨_, _, looked⟩ | ⟨_, _, _, looked⟩ | ⟨_, _, looked⟩ <;>
    rw [looked] <;> rfl

theorem now_le_happen (s : Session) (event : SessionEvent) : s.now ≤ (s.happen event).now := by
  cases event with
  | arrive wish =>
    rw [happen_arrive, now_lookUp]
    exact Nat.le_refl _
  | advance index =>
    simp only [happen, stepCaller]
    cases s.callers[index]? with
    | none => exact Nat.le_refl _
    | some caller =>
      obtain ⟨wish, phase⟩ := caller
      cases phase with
      | fetching f landing =>
        simp only
        split <;> exact Nat.le_refl _
      | following f =>
        simp only
        split
        · exact Nat.le_refl _
        · exact Nat.le_refl _
        · exact Nat.le_of_eq (s.now_lookUp index _).symm
      | _ => exact Nat.le_refl _
  | leave index =>
    simp only [happen, leave]
    split
    · exact Nat.le_refl _
    · split <;> exact Nat.le_refl _
  | pass moment => exact Nat.le_max_left _ _
  | _ => exact Nat.le_refl _

theorem Latest.past {events : List SessionEvent} {signature value : String} {moment : Nat}
    (latest : Latest events signature value moment) : moment ≤ (after events).now := by
  induction events using List.reverseRecOn with
  | nil => exact absurd latest Since.not_nil
  | append_singleton events event earlier =>
    rw [after_concat]
    rcases Since.concat_iff.mp latest with ⟨_, rfl⟩ | ⟨before, _⟩
    · exact now_le_happen _ event
    · exact Nat.le_trans (earlier before) (now_le_happen _ event)

/-! ## Arrivals -/

theorem servedAtOnce_iff {s : Session} {wish : Wish} {value : String} :
    s.ServedAtOnce wish value ↔ s.cache.fresh? s.now wish.ttl wish.signature = some value := by
  constructor
  · intro served
    have returned := served.returned
    rw [happen_arrive] at returned
    rcases (s.enter wish).lookUp_cases s.callers.length ⟨wish, .over⟩ with
      ⟨value', young, looked⟩ | ⟨_, flight, _, looked⟩ | ⟨_, _, looked⟩
    · rw [looked] at returned
      have same := List.append_cancel_left returned
      simp only [List.cons.injEq, Returned.mk.injEq, Except.ok.injEq, and_true] at same
      rw [same.2.2] at young
      exact young
    · rw [looked] at returned
      simp [setPhase, enter] at returned
    · rw [looked] at returned
      simp [setPhase, enter] at returned
  · intro young
    have looked : s.happen (.arrive wish) =
        (s.enter wish).finish s.callers.length ⟨wish, .over⟩ (.ok value) := by
      rw [happen_arrive]
      rcases (s.enter wish).lookUp_cases s.callers.length ⟨wish, .over⟩ with
        ⟨value', young', looked⟩ | ⟨old, _⟩ | ⟨old, _⟩
      · have same : some value = some value' := young.symm.trans young'
        cases same
        exact looked
      · exact absurd (young.symm.trans old) (by simp)
      · exact absurd (young.symm.trans old) (by simp)
    refine ⟨?_, ?_, ?_, ?_⟩
    · rw [looked]
      rfl
    · rw [looked]
      exact s.callers_enter_setPhase wish .over
    · rw [looked]
      rfl
    · rw [looked]
      rfl

theorem takesPart_of_old {events : List SessionEvent} {wish : Wish}
    (old : (after events).cache.fresh? (after events).now wish.ttl wish.signature = none) :
    (after events).TakesPart wish := by
  have place := (after events).enter_found wish
  rcases ((after events).enter wish).lookUp_cases (after events).callers.length ⟨wish, .over⟩ with
    ⟨value, young, _⟩ | ⟨_, flight, running, looked⟩ | ⟨_, _, looked⟩
  · exact absurd (old.symm.trans young) (by simp)
  · rw [← happen_arrive] at looked
    obtain ⟨awaited, _⟩ := joinable?_eq_some.mp running
    obtain ⟨_, i, led⟩ := ((linked events).marker flight wish.signature).mp awaited
    refine ⟨by rw [looked]; rfl, .following flight, flight, ?_, ⟨i, ?_⟩, Or.inl rfl⟩
    · rw [looked]
      exact callers_enter_setPhase ..
    · rw [looked, leads_setPhase_still place (by simp) (by simp), leads_enter]
      exact led
  · rw [← happen_arrive] at looked
    refine ⟨by rw [looked]; rfl,
      .fetching (after events).cache.flights.length ((after events).now + wish.fetchTime),
      (after events).cache.flights.length, ?_, ⟨(after events).callers.length, ?_⟩, Or.inr ⟨_, rfl⟩⟩
    · rw [looked]
      exact callers_enter_setPhase ..
    · rw [looked]
      exact (leads_setPhase (s := { (after events).enter wish with cache := _, fetched := _ })
        place _).mpr (Or.inr ⟨rfl, rfl, _, rfl⟩)

/-- Under every schedule, the cache serves exactly the fresh values that were not forgotten. -/
theorem freshHits_after (events : List SessionEvent) : FreshHits events where
  stored := stored events
  past _ _ _ latest := latest.past
  hit wish value := by
    rw [servedAtOnce_iff, fresh?_eq_some]
    exact exists_congr fun moment => and_congr_left' (stored events wish.signature value moment)
  miss wish aged := by
    refine takesPart_of_old ?_
    rw [Option.eq_none_iff_forall_ne_some]
    intro value young
    obtain ⟨moment, kept, less⟩ := fresh?_eq_some.mp young
    have more := aged value moment ((stored events _ _ _).mp kept)
    omega
  failed event flight signature e completes other := by
    rw [after_concat, completes.happen_eq.1]
    exact entry_land_error ..
  aborted index other := by
    rw [after_concat]
    simp only [happen, leave]
    split
    · rfl
    · split
      · exact entry_abandon ..
      · rfl
  peek signature value := by
    have answer : ((after events).perform (.peek signature)).1 =
        (after events).cache.peek signature := rfl
    rw [answer, peek_eq_some]
    exact exists_congr fun moment => stored events signature value moment

end ProxyConsole.Cache.Session
