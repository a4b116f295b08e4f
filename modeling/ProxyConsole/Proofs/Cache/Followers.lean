import ProxyConsole.Proofs.Cache.Hits

/-!
# Followers share one result

Whoever joined a fetch that comes to its end returns what it came to, even if the
signature was forgotten in the meantime.  Whoever joined a fetch that is given up looks
the signature up again.  So where nobody can go on, every follower waits for a fetch
that still runs, and no caller fetches twice.
-/

set_option autoImplicit false

namespace ProxyConsole.Cache.Session

open ProxyConsole.Positions

/-- The caller at an index has joined a fetch for its signature. -/
def Follows (s : Session) (index flight : Nat) (signature : String) : Prop :=
  ∃ wish, s.callers[index]? = some ⟨wish, .following flight⟩ ∧ wish.signature = signature

/-- An event is the turn of the caller at an index: it arrives with its wish, or goes on. -/
def TurnOf (s : Session) (event : SessionEvent) (index : Nat) (wish : Wish) : Prop :=
  (event = .arrive wish ∧ index = s.callers.length) ∨
    (event = .advance index ∧ ∃ phase, s.callers[index]? = some ⟨wish, phase⟩)

/-- An event lets the caller at an index return. -/
structure Returns (s : Session) (event : SessionEvent) (index : Nat) (wish : Wish)
    (result : Except CallError String) : Prop where
  turn : s.TurnOf event index wish
  settled : (s.happen event).callers[index]? = some ⟨wish, .over⟩
  returned : (s.happen event).returned = s.returned ++ [⟨wish.id, s.now, result⟩]

/-- An event lets the caller at an index start its fetch. -/
structure StartsFetch (s : Session) (event : SessionEvent) (index : Nat) (wish : Wish) : Prop where
  turn : s.TurnOf event index wish
  fetched : (s.happen event).fetched = s.fetched ++ [wish.id]

/-- The latest value stored for a caller is young enough for it. -/
def Fresh (events : List SessionEvent) (wish : Wish) (value : String) : Prop :=
  ∃ moment, Latest events wish.signature value moment ∧ (after events).now - moment < wish.ttl

/-- The fetch that a caller had joined has come to its end. -/
def Shared (events : List SessionEvent) (index flight : Nat) (signature : String)
    (result : Except CallError String) : Prop :=
  ∃ before event rest, events = before ++ event :: rest ∧
    (after before).Follows index flight signature ∧
    (after before).Completes event flight signature result

/-- The fetch that a caller had joined was given up by its leader. -/
def Deserted (events : List SessionEvent) (index flight : Nat) (signature : String) : Prop :=
  ∃ before leader rest, events = before ++ .leave leader :: rest ∧
    (after before).Follows index flight signature ∧ (after before).Leads leader flight signature

/-- Where the result of a caller that returns comes from. -/
inductive Source (events : List SessionEvent) (event : SessionEvent) (index : Nat) (wish : Wish)
    (result : Except CallError String) : Prop where
  | stored (value : String) (fresh : Fresh events wish value) (same : result = .ok value)
  | joined (flight : Nat) (follows : (after events).Follows index flight wish.signature)
      (shared : Shared events index flight wish.signature result)
  | own (flight : Nat) (led : (after events).Leads index flight wish.signature)
      (completes : (after events).Completes event flight wish.signature result)

/-- How a follower goes on whose fetch was given up. -/
inductive TakesOver (events : List SessionEvent) (index : Nat) (signature : String) : Prop where
  | served (wish : Wish) (value : String) (fresh : Fresh events wish value)
      (returns : (after events).Returns (.advance index) index wish (.ok value))
  | joins (flight : Nat) (running : (after events).Running flight signature)
      (current : Current events flight signature)
      (follows : (after (events ++ [.advance index])).Follows index flight signature)
  | leads (flight : Nat) (led : (after (events ++ [.advance index])).Leads index flight signature)
      (only : ∀ other flight', (after (events ++ [.advance index])).Leads other flight' signature →
        Current (events ++ [.advance index]) flight' signature → other = index)

/-- What followers can rely on after a sequence of events. -/
structure Sharing (events : List SessionEvent) : Prop where
  logged : ∀ r ∈ (after events).returned, ∃ before event rest index wish,
    events = before ++ event :: rest ∧ (after before).Returns event index wish r.result ∧
    r.id = wish.id ∧ r.moment = (after before).now
  source : ∀ event index wish result, (after events).Returns event index wish result →
    Source events event index wish result
  single : ∀ before rest index flight signature wish phase, events = before ++ rest →
    (after before).Follows index flight signature →
    (after events).callers[index]? = some ⟨wish, phase⟩ → phase ≠ .over →
    phase ≠ .following flight → Deserted events index flight signature
  leader : ∀ event flight signature result, (after events).Completes event flight signature result →
    ∃ index wish, (after events).Leads index flight signature ∧
      (after events).Returns event index wish result
  /-- Whoever had joined a fetch that ended has returned what it came to, or does so when its
  turn comes, unless it went away. -/
  shared : ∀ before event rest index flight signature result, events = before ++ event :: rest →
    (after before).Completes event flight signature result →
    (after before).Follows index flight signature → .leave index ∉ rest →
    (∃ wish, (after events).Returns (.advance index) index wish result) ∨
      ∃ middle later wish, rest = middle ++ .advance index :: later ∧
        (after (before ++ event :: middle)).Returns (.advance index) index wish result
  takesOver : ∀ index flight signature, (after events).Follows index flight signature →
    Deserted events index flight signature → TakesOver events index signature
  /-- Where nobody can go on, every follower waits for a fetch that runs. -/
  waits : (∀ index, (after events).stepCaller index = none) → ∀ index flight signature,
    (after events).Follows index flight signature → (after events).Running flight signature
  once : ∀ before event middle event' rest index wish wish',
    events = before ++ event :: middle ++ event' :: rest →
    (after before).StartsFetch event index wish →
    ¬ (after (before ++ event :: middle)).StartsFetch event' index wish'

/-! ## Callers -/

theorem setPhase_place {s : Session} {i : Nat} {caller : Caller}
    (found : s.callers[i]? = some caller) (phase : CallerPhase) :
    (s.setPhase i caller phase).callers[i]? = some ⟨caller.wish, phase⟩ :=
  getElem?_set_of_some _ found

theorem finish_place {s : Session} {i : Nat} {caller : Caller} (found : s.callers[i]? = some caller)
    (result : Except CallError String) :
    (s.finish i caller result).callers[i]? = some ⟨caller.wish, .over⟩ :=
  setPhase_place found .over

theorem lookUp_callers_other (s : Session) {i j : Nat} (caller : Caller) (other : j ≠ i) :
    (s.lookUp i caller).callers[j]? = s.callers[j]? := by
  rcases s.lookUp_cases i caller with ⟨_, _, looked⟩ | ⟨_, _, _, looked⟩ | ⟨_, _, looked⟩ <;>
    rw [looked] <;> exact List.getElem?_set_ne (Ne.symm other)

theorem lookUp_place {s : Session} {i : Nat} {caller : Caller}
    (found : s.callers[i]? = some caller) :
    ∃ phase, (s.lookUp i caller).callers[i]? = some ⟨caller.wish, phase⟩ := by
  rcases s.lookUp_cases i caller with ⟨_, _, looked⟩ | ⟨_, _, _, looked⟩ | ⟨_, _, looked⟩ <;>
    rw [looked]
  · exact ⟨_, finish_place found _⟩
  · exact ⟨_, setPhase_place found _⟩
  · exact ⟨_, setPhase_place (s := { s with cache := _, fetched := _ }) found _⟩

section Advance

variable {s : Session} {i f : Nat} {wish : Wish}

theorem advance_over (found : s.callers[i]? = some ⟨wish, .over⟩) : s.happen (.advance i) = s := by
  simp only [happen, stepCaller, found, Option.getD_none]

theorem advance_fetching {landing : Nat}
    (found : s.callers[i]? = some ⟨wish, .fetching f landing⟩) : s.happen (.advance i) =
      if landing ≤ s.now then
        { s with cache := s.cache.land s.now wish.signature f wish.fetchResult }.finish i
          ⟨wish, .fetching f landing⟩ wish.fetchResult
      else s := by
  simp only [happen, stepCaller, found]
  split <;> rfl

theorem advance_running (found : s.callers[i]? = some ⟨wish, .following f⟩)
    (running : s.cache.flights[f]? = some .running) : s.happen (.advance i) = s := by
  simp only [happen, stepCaller, found, running, Option.getD_none]

theorem advance_landed {result : Except CallError String}
    (found : s.callers[i]? = some ⟨wish, .following f⟩)
    (landed : s.cache.flights[f]? = some (.landed result)) :
    s.happen (.advance i) = s.finish i ⟨wish, .following f⟩ result := by
  simp only [happen, stepCaller, found, landed, Option.getD_some]

theorem advance_gone (found : s.callers[i]? = some ⟨wish, .following f⟩)
    (still : s.cache.flights[f]? ≠ some .running)
    (unended : ∀ result, s.cache.flights[f]? ≠ some (.landed result)) :
    s.happen (.advance i) = s.lookUp i ⟨wish, .following f⟩ := by
  simp only [happen, stepCaller, found, Option.getD_some]

theorem advance_abandoned (found : s.callers[i]? = some ⟨wish, .following f⟩)
    (abandoned : s.cache.flights[f]? = some .abandoned) :
    s.happen (.advance i) = s.lookUp i ⟨wish, .following f⟩ :=
  advance_gone found (by simp [abandoned]) (by simp [abandoned])

/-- All that the turn of a caller can do. -/
inductive Turn (s : Session) (i : Nat) (wish : Wish) : CallerPhase → Session → Prop where
  | still (phase : CallerPhase) : Turn s i wish phase s
  | lands (f landing : Nat) (due : landing ≤ s.now) :
      Turn s i wish (.fetching f landing)
        ({ s with cache := s.cache.land s.now wish.signature f wish.fetchResult }.finish i
          ⟨wish, .fetching f landing⟩ wish.fetchResult)
  | shares (f : Nat) (result : Except CallError String)
      (landed : s.cache.flights[f]? = some (.landed result)) :
      Turn s i wish (.following f) (s.finish i ⟨wish, .following f⟩ result)
  | again (f : Nat) (still : s.cache.flights[f]? ≠ some .running)
      (unended : ∀ result, s.cache.flights[f]? ≠ some (.landed result)) :
      Turn s i wish (.following f) (s.lookUp i ⟨wish, .following f⟩)

theorem advance_turn {phase : CallerPhase} (found : s.callers[i]? = some ⟨wish, phase⟩) :
    Turn s i wish phase (s.happen (.advance i)) := by
  cases phase with
  | fetching f landing =>
    rw [advance_fetching found]
    split
    · rename_i due
      exact .lands f landing due
    · exact .still _
  | following f =>
    by_cases running : s.cache.flights[f]? = some .running
    · rw [advance_running found running]
      exact .still _
    by_cases landed : ∃ result, s.cache.flights[f]? = some (.landed result)
    · obtain ⟨result, landed⟩ := landed
      rw [advance_landed found landed]
      exact .shares f result landed
    · have unended := not_exists.mp landed
      rw [advance_gone found running unended]
      exact .again f running unended
  | _ =>
    rw [advance_over found]
    exact .still _

theorem advance_absent (absent : s.callers[i]? = none) : s.happen (.advance i) = s := by
  simp only [happen, stepCaller, absent, Option.getD_none]

theorem callers_other {event : SessionEvent}
    (notArrive : ∀ wish, event = .arrive wish → i ≠ s.callers.length)
    (notAdvance : event ≠ .advance i) (notLeave : event ≠ .leave i) :
    (s.happen event).callers[i]? = s.callers[i]? := by
  cases event with
  | arrive wish =>
    have other := notArrive wish rfl
    rw [happen_arrive, lookUp_callers_other _ _ other]
    exact getElem?_concat_of_ne _ other
  | advance k =>
    have other : i ≠ k := fun same => notAdvance (by rw [same])
    cases found : s.callers[k]? with
    | none => rw [advance_absent found]
    | some caller =>
      obtain ⟨wish, phase⟩ := caller
      have turn := advance_turn found
      generalize s.happen (.advance k) = s' at turn ⊢
      cases turn with
      | still => rfl
      | lands f landing due => exact List.getElem?_set_ne (Ne.symm other)
      | shares f result landed => exact List.getElem?_set_ne (Ne.symm other)
      | again f still unended => exact s.lookUp_callers_other _ other
  | leave k =>
    have other : i ≠ k := fun same => notLeave (by rw [same])
    simp only [happen, leave]
    cases s.callers[k]? with
    | none => rfl
    | some caller =>
      obtain ⟨wish, phase⟩ := caller
      cases phase <;> exact List.getElem?_set_ne (Ne.symm other)
  | _ => rfl

theorem caller_kept {caller : Caller} (found : s.callers[i]? = some caller)
    {event : SessionEvent} (notAdvance : event ≠ .advance i) (notLeave : event ≠ .leave i) :
    (s.happen event).callers[i]? = some caller := by
  have inside := (List.getElem?_eq_some_iff.mp found).1
  rw [callers_other (fun _ _ => Nat.ne_of_lt inside) notAdvance notLeave, found]

theorem leave_absent (absent : s.callers[i]? = none) : s.happen (.leave i) = s := by
  simp only [happen, leave, absent]

theorem leave_fetching {landing : Nat} (found : s.callers[i]? = some ⟨wish, .fetching f landing⟩) :
    s.happen (.leave i) =
      { s with cache := s.cache.abandon wish.signature f }.setPhase i
        ⟨wish, .fetching f landing⟩ .over := by
  simp only [happen, leave, found]

theorem leave_idle {phase : CallerPhase} (found : s.callers[i]? = some ⟨wish, phase⟩)
    (idle : ∀ g landing, phase ≠ .fetching g landing) :
    s.happen (.leave i) = s.setPhase i ⟨wish, phase⟩ .over := by
  cases phase with
  | fetching g landing => exact absurd rfl (idle g landing)
  | _ => simp only [happen, leave, found]

theorem leave_over {phase : CallerPhase} (found : s.callers[i]? = some ⟨wish, phase⟩) :
    (s.happen (.leave i)).callers[i]? = some ⟨wish, .over⟩ := by
  simp only [happen, leave, found]
  cases phase <;> exact getElem?_set_of_some _ found

theorem happen_place {phase : CallerPhase} (found : s.callers[i]? = some ⟨wish, phase⟩)
    (event : SessionEvent) : ∃ phase', (s.happen event).callers[i]? = some ⟨wish, phase'⟩ := by
  by_cases leaves : event = .leave i
  · subst leaves
    exact ⟨_, leave_over found⟩
  by_cases advances : event = .advance i
  · subst advances
    have turn := advance_turn found
    generalize s.happen (.advance i) = s' at turn ⊢
    cases turn with
    | still => exact ⟨_, found⟩
    | lands f landing due =>
      exact ⟨_, finish_place (s := { s with cache := _ }) found wish.fetchResult⟩
    | shares f result landed => exact ⟨_, finish_place found _⟩
    | again f still unended => exact lookUp_place found
  · exact ⟨_, caller_kept found advances leaves⟩

/-- All that an event can make of a caller. -/
inductive Move (s : Session) (event : SessionEvent) (i : Nat) (caller : Caller) (s' : Session) :
    Prop where
  | stays (before : s.callers[i]? = some caller)
  | leaves (cause : event = .leave i) (settled : caller.phase = .over)
  | arrives (wish : Wish) (cause : event = .arrive wish) (last : i = s.callers.length)
      (looked : s' = (s.enter wish).lookUp i ⟨wish, .over⟩)
  | lands (cause : event = .advance i) (wish : Wish) (f landing : Nat) (cache : Cache String)
      (found : s.callers[i]? = some ⟨wish, .fetching f landing⟩)
      (done : s' = { s with cache }.finish i ⟨wish, .fetching f landing⟩ wish.fetchResult)
  | shares (cause : event = .advance i) (wish : Wish) (f : Nat) (result : Except CallError String)
      (found : s.callers[i]? = some ⟨wish, .following f⟩)
      (landed : s.cache.flights[f]? = some (.landed result))
      (done : s' = s.finish i ⟨wish, .following f⟩ result)
  | again (cause : event = .advance i) (wish : Wish) (f : Nat)
      (found : s.callers[i]? = some ⟨wish, .following f⟩)
      (still : s.cache.flights[f]? ≠ some .running)
      (unended : ∀ result, s.cache.flights[f]? ≠ some (.landed result))
      (looked : s' = s.lookUp i ⟨wish, .following f⟩)

theorem happen_move {event : SessionEvent} {caller : Caller}
    (found' : (s.happen event).callers[i]? = some caller) :
    Move s event i caller (s.happen event) := by
  by_cases arrives : ∃ wish, event = .arrive wish ∧ i = s.callers.length
  · obtain ⟨wish, rfl, rfl⟩ := arrives
    exact .arrives wish rfl rfl (s.happen_arrive wish)
  have notArrive : ∀ wish, event = .arrive wish → i ≠ s.callers.length :=
    fun wish cause last => arrives ⟨wish, cause, last⟩
  by_cases leaves : event = .leave i
  · subst leaves
    cases found : s.callers[i]? with
    | none =>
      simp only [happen, leave, found] at found'
      cases found'
    | some caller' =>
      obtain ⟨wish, phase⟩ := caller'
      rw [leave_over found] at found'
      cases found'
      exact .leaves rfl rfl
  by_cases advances : event = .advance i
  · subst advances
    cases found : s.callers[i]? with
    | none =>
      rw [advance_absent found, found] at found'
      cases found'
    | some caller' =>
      obtain ⟨wish, phase⟩ := caller'
      have turn := advance_turn found
      generalize s.happen (.advance i) = s' at turn found' ⊢
      cases turn with
      | still => exact .stays found'
      | lands f landing due => exact .lands rfl wish f landing _ found rfl
      | shares f result landed => exact .shares rfl wish f result found landed rfl
      | again f still unended => exact .again rfl wish f found still unended rfl
  · rw [callers_other notArrive advances leaves] at found'
    exact .stays found'

end Advance

theorem caller_lasts {before : List SessionEvent} {i : Nat} {wish : Wish} {phase : CallerPhase}
    (found : (after before).callers[i]? = some ⟨wish, phase⟩) (rest : List SessionEvent) :
    ∃ phase', (after (before ++ rest)).callers[i]? = some ⟨wish, phase'⟩ := by
  induction rest using List.reverseRecOn with
  | nil => exact ⟨phase, by rwa [List.append_nil]⟩
  | append_singleton rest event earlier =>
    obtain ⟨phase', found'⟩ := earlier
    rw [← List.append_assoc, after_concat]
    exact happen_place found' event

/-! ## What becomes of a fetch -/

theorem flight_kept {events : List SessionEvent} {event : SessionEvent} {f : Nat}
    {outcome : Flight String} (found : (after events).cache.flights[f]? = some outcome)
    (settled : outcome ≠ .running) :
    (after (events ++ [event])).cache.flights[f]? = some outcome := by
  have apart : ∀ {i g : Nat} {signature : String}, (after events).Leads i g signature → g ≠ f := by
    rintro i g signature led rfl
    have running := (linked events).runs i g signature led
    rw [found] at running
    cases running
    exact settled rfl
  have effect := (after events).happen_effect event
  rw [← after_concat] at effect
  cases effect with
  | quiet calm cache leads => rwa [cache]
  | launches i signature calm free cache leads =>
    rw [cache, flights_launch]
    exact getElem?_concat_of_some _ found
  | lands i g signature result led completes cache leads =>
    rw [cache, flights_land, List.getElem?_set_ne (apart led)]
    exact found
  | givesUp i g signature led cause cache leads =>
    rw [cache, flights_abandon, List.getElem?_set_ne (apart led)]
    exact found
  | forgets cache leads =>
    rw [cache]
    exact found

theorem completes_landed {events : List SessionEvent} {event : SessionEvent} {f : Nat}
    {signature : String} {result : Except CallError String}
    (completes : (after events).Completes event f signature result) :
    (after (events ++ [event])).cache.flights[f]? = some (.landed result) := by
  obtain ⟨i, _, led⟩ := completes.leads
  rw [after_concat, completes.happen_eq.1, flights_land]
  exact getElem?_set_of_some _ ((linked events).runs i f signature led)

theorem leave_abandons {events : List SessionEvent} {i f : Nat} {signature : String}
    (led : (after events).Leads i f signature) :
    (after (events ++ [.leave i])).cache.flights[f]? = some .abandoned := by
  have running := (linked events).runs i f signature led
  obtain ⟨⟨wish, _⟩, landing, found, phase, rfl⟩ := led
  cases phase
  have cache : ((after events).happen (.leave i)).cache =
      (after events).cache.abandon wish.signature f := by
    simp only [happen, leave, found]
    rfl
  rw [after_concat, cache, flights_abandon]
  exact getElem?_set_of_some _ running

/-- A fetch that was left settled is settled ever after. -/
theorem flight_lasts {before : List SessionEvent} {f : Nat} {outcome : Flight String}
    (found : (after before).cache.flights[f]? = some outcome) (settled : outcome ≠ .running)
    (rest : List SessionEvent) :
    (after (before ++ rest)).cache.flights[f]? = some outcome := by
  induction rest using List.reverseRecOn with
  | nil => rwa [List.append_nil]
  | append_singleton rest event earlier =>
    rw [← List.append_assoc]
    exact flight_kept earlier settled

theorem Shared.landed {events : List SessionEvent} {i f : Nat} {signature : String}
    {result : Except CallError String} (shared : Shared events i f signature result) :
    (after events).cache.flights[f]? = some (.landed result) := by
  obtain ⟨before, event, rest, rfl, _, completes⟩ := shared
  have lasts := flight_lasts (completes_landed completes) (by simp) rest
  rwa [List.append_assoc] at lasts

theorem Deserted.abandoned {events : List SessionEvent} {i f : Nat} {signature : String}
    (deserted : Deserted events i f signature) :
    (after events).cache.flights[f]? = some .abandoned := by
  obtain ⟨before, leader, rest, rfl, _, led⟩ := deserted
  have lasts := flight_lasts (leave_abandons led) (by simp) rest
  rwa [List.append_assoc] at lasts

theorem Shared.concat {events : List SessionEvent} {i f : Nat} {signature : String}
    {result : Except CallError String} (shared : Shared events i f signature result)
    (event : SessionEvent) : Shared (events ++ [event]) i f signature result := by
  obtain ⟨before, done, rest, rfl, follows, completes⟩ := shared
  exact ⟨before, done, rest ++ [event], by simp, follows, completes⟩

theorem Deserted.concat {events : List SessionEvent} {i f : Nat} {signature : String}
    (deserted : Deserted events i f signature) (event : SessionEvent) :
    Deserted (events ++ [event]) i f signature := by
  obtain ⟨before, leader, rest, rfl, follows, led⟩ := deserted
  exact ⟨before, leader, rest ++ [event], by simp, follows, led⟩

/-- What has become of the fetch that a caller joined. -/
inductive Fate (events : List SessionEvent) (index flight : Nat) (signature : String) : Prop where
  | runs (running : (after events).Running flight signature)
  | shared (result : Except CallError String) (shared : Shared events index flight signature result)
  | deserted (deserted : Deserted events index flight signature)

theorem Fate.concat {events : List SessionEvent} {i f : Nat} {signature : String}
    (fate : Fate events i f signature) (follows : (after events).Follows i f signature)
    (event : SessionEvent) : Fate (events ++ [event]) i f signature := by
  cases fate with
  | shared result shared => exact .shared result (shared.concat event)
  | deserted deserted => exact .deserted (deserted.concat event)
  | runs running =>
    obtain ⟨j, led⟩ := running
    have effect := (after events).happen_effect event
    rw [← after_concat] at effect
    cases effect with
    | quiet calm cache leads => exact .runs ⟨j, (leads j f signature).mpr led⟩
    | launches i' signature' calm free cache leads =>
      exact .runs ⟨j, (leads j f signature).mpr (Or.inl led)⟩
    | lands i' g signature' result led' completes cache leads =>
      by_cases own : j = i'
      · subst own
        obtain ⟨rfl, rfl⟩ := leads_unique led led'
        exact .shared result ⟨events, event, [], rfl, follows, completes⟩
      · exact .runs ⟨j, (leads j f signature).mpr ⟨led, own⟩⟩
    | givesUp i' g signature' led' cause cache leads =>
      by_cases own : j = i'
      · subst own cause
        obtain ⟨rfl, rfl⟩ := leads_unique led led'
        exact .deserted ⟨events, j, [], rfl, follows, led⟩
      · exact .runs ⟨j, (leads j f signature).mpr ⟨led, own⟩⟩
    | forgets cache leads => exact .runs ⟨j, (leads j f signature).mpr led⟩

/-! ## Who follows -/

theorem joinable_running {events : List SessionEvent} {f : Nat} {signature : String}
    (joinable : (after events).cache.joinable? signature = some f) :
    Current events f signature ∧ (after events).Running f signature :=
  ((linked events).marker f signature).mp (joinable?_eq_some.mp joinable).1

/-- A look-up that ends in following joins a fetch, and lets every fetch go on. -/
theorem lookUp_follows {s : Session} {i f : Nat} {caller : Caller} {signature : String}
    (found : s.callers[i]? = some caller) (idle : ∀ g landing, caller.phase ≠ .fetching g landing)
    (follows : (s.lookUp i caller).Follows i f signature) :
    s.cache.joinable? signature = some f ∧
      ∀ j g other, s.Leads j g other → (s.lookUp i caller).Leads j g other := by
  obtain ⟨wish, stands, rfl⟩ := follows
  rcases s.lookUp_cases i caller with
    ⟨value, _, looked⟩ | ⟨_, flight, running, looked⟩ | ⟨_, _, looked⟩
  · rw [looked, finish_place found] at stands
    cases stands
  · have same := stands
    rw [looked, setPhase_place found] at same
    cases same
    refine ⟨running, ?_⟩
    intro j g other led
    rw [looked]
    exact (leads_setPhase_still found idle (by simp)).mpr led
  · rw [looked] at stands
    cases (setPhase_place (s := { s with cache := _, fetched := _ }) found _).symm.trans stands

theorem follows_concat {events : List SessionEvent} {event : SessionEvent} {i f : Nat}
    {signature : String} (follows : (after (events ++ [event])).Follows i f signature) :
    (after events).Follows i f signature ∨ (after (events ++ [event])).Running f signature := by
  have joins : ∀ {s₀ : Session} {caller : Caller}, s₀.callers[i]? = some caller →
      (∀ g landing, caller.phase ≠ .fetching g landing) → s₀.cache = (after events).cache →
      (∀ j g other, s₀.Leads j g other ↔ (after events).Leads j g other) →
      after (events ++ [event]) = s₀.lookUp i caller →
      (after (events ++ [event])).Running f signature := by
    intro s₀ caller found idle cache leads looked
    rw [looked] at follows ⊢
    obtain ⟨joinable, kept⟩ := lookUp_follows found idle follows
    rw [cache] at joinable
    obtain ⟨_, j, led⟩ := joinable_running joinable
    exact ⟨j, kept j f signature ((leads j f signature).mpr led)⟩
  obtain ⟨wish, stands, own⟩ := id follows
  rw [after_concat] at stands joins ⊢
  cases happen_move stands with
  | stays before => exact Or.inl ⟨wish, before, own⟩
  | leaves cause settled => cases settled
  | arrives wish' cause last looked =>
    subst last
    exact Or.inr (joins ((after events).enter_found wish') (by simp) rfl
      ((after events).leads_enter wish') looked)
  | lands cause wish' g landing cache found done =>
    rw [done, finish_place (s := { after events with cache }) found] at stands
    cases stands
  | shares cause wish' g result found landed done =>
    rw [done, finish_place found] at stands
    cases stands
  | again cause wish' g found still unended looked =>
    exact Or.inr (joins found (by simp) rfl (fun _ _ _ => Iff.rfl) looked)

theorem fate_of_follows {events : List SessionEvent} {i f : Nat} {signature : String}
    (follows : (after events).Follows i f signature) : Fate events i f signature := by
  induction events using List.reverseRecOn with
  | nil =>
    obtain ⟨wish, found, _⟩ := follows
    cases found
  | append_singleton events event earlier =>
    rcases follows_concat follows with before | running
    · exact (earlier before).concat before event
    · exact .runs running

/-- Only a deserted follower goes on without the fetch that it had joined. -/
theorem deserted_of_apart {before rest : List SessionEvent} {i f : Nat} {signature : String}
    (follows : (after before).Follows i f signature) {wish : Wish} {phase : CallerPhase}
    (stands : (after (before ++ rest)).callers[i]? = some ⟨wish, phase⟩) (goesOn : phase ≠ .over)
    (apart : phase ≠ .following f) : Deserted (before ++ rest) i f signature := by
  induction rest using List.reverseRecOn generalizing wish phase with
  | nil =>
    obtain ⟨wish', found, _⟩ := follows
    rw [List.append_nil, found] at stands
    cases stands
    exact absurd rfl apart
  | append_singleton rest event earlier =>
    obtain ⟨first, found, own⟩ := id follows
    obtain ⟨earlierPhase, lasts⟩ := caller_lasts found rest
    rw [← List.append_assoc, after_concat] at stands
    rw [← List.append_assoc]
    cases happen_move stands with
    | stays before' => exact (earlier before' goesOn apart).concat event
    | leaves cause settled => exact absurd settled goesOn
    | arrives wish' cause last looked =>
      subst last
      simp at lasts
    | lands cause wish' g landing cache found' done =>
      rw [done, finish_place (s := { after (before ++ rest) with cache }) found'] at stands
      cases stands
      exact absurd rfl goesOn
    | shares cause wish' g result found' landed done =>
      rw [done, finish_place found'] at stands
      cases stands
      exact absurd rfl goesOn
    | again cause wish' g found' still unended looked =>
      by_cases same : g = f
      · subst same
        rw [found'] at lasts
        cases lasts
        cases fate_of_follows ⟨first, found', own⟩ with
        | runs running =>
          obtain ⟨j, led⟩ := running
          exact absurd ((linked _).runs j g signature led) still
        | shared result shared => exact absurd shared.landed (unended result)
        | deserted deserted => exact deserted.concat event
      · exact (earlier found' (by simp) (by simpa using same)).concat event

/-! ## Who returns -/

theorem lookUp_returned {s : Session} {i : Nat} {caller : Caller} {r : Returned}
    (returned : (s.lookUp i caller).returned = s.returned ++ [r]) :
    ∃ value, s.cache.fresh? s.now caller.wish.ttl caller.wish.signature = some value ∧
      r.result = .ok value := by
  rcases s.lookUp_cases i caller with ⟨value, young, looked⟩ | ⟨_, _, _, looked⟩ | ⟨_, _, looked⟩
  · rw [looked] at returned
    cases List.append_cancel_left returned
    exact ⟨value, young, rfl⟩
  · rw [looked] at returned
    simp [setPhase] at returned
  · rw [looked] at returned
    simp [setPhase] at returned

theorem fresh_of_young {events : List SessionEvent} {wish : Wish} {value : String}
    (young : (after events).cache.fresh? (after events).now wish.ttl wish.signature = some value) :
    Fresh events wish value := by
  obtain ⟨moment, kept, less⟩ := fresh?_eq_some.mp young
  exact ⟨moment, (stored events _ _ _).mp kept, less⟩

theorem returns_of_landed {s : Session} {i f : Nat} {wish : Wish} {result : Except CallError String}
    (found : s.callers[i]? = some ⟨wish, .following f⟩)
    (landed : s.cache.flights[f]? = some (.landed result)) :
    s.Returns (.advance i) i wish result where
  turn := Or.inr ⟨rfl, _, found⟩
  settled := by
    rw [advance_landed found landed]
    exact finish_place found _
  returned := by
    rw [advance_landed found landed]
    rfl

theorem returns_of_due {s : Session} {i f landing : Nat} {wish : Wish}
    (found : s.callers[i]? = some ⟨wish, .fetching f landing⟩) (due : landing ≤ s.now) :
    s.Returns (.advance i) i wish wish.fetchResult where
  turn := Or.inr ⟨rfl, _, found⟩
  settled := by
    rw [advance_fetching found, if_pos due]
    exact finish_place (s := { s with cache := _ }) found wish.fetchResult
  returned := by
    rw [advance_fetching found, if_pos due]
    rfl

theorem lookUp_settles {s : Session} {i : Nat} {caller : Caller}
    (found : s.callers[i]? = some caller) :
    (s.lookUp i caller).returned = s.returned ∨
      ∃ value, (s.lookUp i caller).callers[i]? = some ⟨caller.wish, .over⟩ ∧
        (s.lookUp i caller).returned = s.returned ++ [⟨caller.wish.id, s.now, .ok value⟩] := by
  rcases s.lookUp_cases i caller with ⟨value, _, looked⟩ | ⟨_, _, _, looked⟩ | ⟨_, _, looked⟩ <;>
    rw [looked]
  · exact Or.inr ⟨value, finish_place found _, rfl⟩
  · exact Or.inl rfl
  · exact Or.inl rfl

theorem happen_returned (s : Session) (event : SessionEvent) :
    (s.happen event).returned = s.returned ∨
      ∃ index wish result, s.Returns event index wish result := by
  cases event with
  | arrive wish =>
    rcases lookUp_settles (s.enter_found wish) with same | ⟨value, settled, returned⟩
    · exact Or.inl (by rw [happen_arrive, same]; rfl)
    · rw [← happen_arrive] at settled returned
      exact Or.inr ⟨s.callers.length, wish, .ok value, Or.inl ⟨rfl, rfl⟩, settled, returned⟩
  | advance i =>
    cases found : s.callers[i]? with
    | none => exact Or.inl (by rw [advance_absent found])
    | some caller =>
      obtain ⟨wish, phase⟩ := caller
      have turn := advance_turn found
      generalize next : s.happen (.advance i) = s' at turn
      cases turn with
      | still => exact Or.inl rfl
      | lands f landing due => exact Or.inr ⟨i, wish, _, returns_of_due found due⟩
      | shares f result landed => exact Or.inr ⟨i, wish, result, returns_of_landed found landed⟩
      | again f still unended =>
        rcases lookUp_settles found with same | ⟨value, settled, returned⟩
        · exact Or.inl same
        · rw [← next] at settled returned
          exact Or.inr ⟨i, wish, .ok value, Or.inr ⟨rfl, _, found⟩, settled, returned⟩
  | leave i =>
    left
    simp only [happen, leave]
    split
    · rfl
    · split <;> rfl
  | _ => exact Or.inl rfl

theorem returned_logged (events : List SessionEvent) :
    ∀ r ∈ (after events).returned, ∃ before event rest index wish,
      events = before ++ event :: rest ∧ (after before).Returns event index wish r.result ∧
      r.id = wish.id ∧ r.moment = (after before).now := by
  induction events using List.reverseRecOn with
  | nil =>
    intro r member
    cases member
  | append_singleton events event earlier =>
    intro r member
    have old : r ∈ (after events).returned → ∃ before event' rest index wish,
        events ++ [event] = before ++ event' :: rest ∧
        (after before).Returns event' index wish r.result ∧
        r.id = wish.id ∧ r.moment = (after before).now := by
      intro member
      obtain ⟨before, event', rest, index, wish, rfl, facts⟩ := earlier r member
      exact ⟨before, event', rest ++ [event], index, wish, by simp, facts⟩
    rw [after_concat] at member
    rcases (after events).happen_returned event with same | ⟨index, wish, result, returns⟩
    · rw [same] at member
      exact old member
    · rw [returns.returned] at member
      rcases List.mem_append.mp member with before | last
      · exact old before
      · cases List.mem_singleton.mp last
        exact ⟨events, event, [], index, wish, rfl, returns, rfl, rfl⟩

theorem source_of_returns {events : List SessionEvent} {event : SessionEvent} {i : Nat}
    {wish : Wish}
    {result : Except CallError String} (returns : (after events).Returns event i wish result) :
    Source events event i wish result := by
  have returned := returns.returned
  have unchanged : (after events).happen event ≠ after events := by
    intro same
    rw [same] at returned
    simp at returned
  have served : ∀ {caller : Caller}, caller.wish = wish →
      (after events).happen event = (after events).lookUp i caller →
      Source events event i wish result := by
    rintro caller rfl looked
    rw [looked] at returned
    obtain ⟨value, young, same⟩ := lookUp_returned returned
    exact .stored value (fresh_of_young young) same
  rcases returns.turn with ⟨rfl, rfl⟩ | ⟨rfl, phase, found⟩
  · rw [happen_arrive] at returned
    obtain ⟨value, young, same⟩ := lookUp_returned (s := (after events).enter wish) returned
    exact .stored value (fresh_of_young young) same
  · cases phase with
    | fetching f landing =>
      by_cases due : landing ≤ (after events).now
      · rw [(returns_of_due found due).returned] at returned
        cases List.append_cancel_left returned
        exact .own f ⟨_, landing, found, rfl, rfl⟩
          ⟨i, _, landing, rfl, found, rfl, due, rfl, rfl⟩
      · exact absurd ((advance_fetching found).trans (if_neg due)) unchanged
    | following f =>
      have follows : (after events).Follows i f wish.signature := ⟨wish, found, rfl⟩
      cases fate_of_follows follows with
      | runs running =>
        obtain ⟨j, led⟩ := running
        exact absurd (advance_running found ((linked events).runs j f _ led)) unchanged
      | shared result' shared =>
        rw [(returns_of_landed found shared.landed).returned] at returned
        cases List.append_cancel_left returned
        exact .joined f follows shared
      | deserted deserted =>
        exact served rfl (advance_abandoned found deserted.abandoned)
    | _ => exact absurd (advance_over found) unchanged

/-- A follower of a fetch that came to its end returns the same when its turn comes. -/
theorem shared_returns {before rest : List SessionEvent} {event : SessionEvent} {i f : Nat}
    {signature : String} {result : Except CallError String}
    (completes : (after before).Completes event f signature result)
    (follows : (after before).Follows i f signature) (stays : .leave i ∉ rest) :
    (∃ wish, (after (before ++ event :: rest)).callers[i]? = some ⟨wish, .following f⟩) ∨
      ∃ middle later wish, rest = middle ++ .advance i :: later ∧
        (after (before ++ event :: middle)).Returns (.advance i) i wish result := by
  obtain ⟨wish, found, own⟩ := id follows
  have landed : ∀ rest, (after (before ++ event :: rest)).cache.flights[f]? =
      some (.landed result) := by
    intro rest
    exact Shared.landed ⟨before, event, rest, rfl, follows, completes⟩
  induction rest using List.reverseRecOn with
  | nil =>
    obtain ⟨leader, rfl, caller, landing, found', phase, _⟩ := completes.leads
    have other : leader ≠ i := by
      rintro rfl
      rw [found] at found'
      cases found'
      cases phase
    refine Or.inl ⟨wish, ?_⟩
    rw [after_concat]
    exact caller_kept found (by simpa using other) (by simp)
  | append_singleton rest next earlier =>
    have stays' : .leave i ∉ rest ∧ next ≠ .leave i := by
      constructor
      · exact fun member => stays (List.mem_append_left _ member)
      · rintro rfl
        exact stays (by simp)
    rcases earlier stays'.1 with ⟨wish', stands⟩ | ⟨middle, later, wish', split, returns⟩
    · by_cases turn : next = .advance i
      · subst turn
        exact Or.inr ⟨rest, [], wish', rfl, returns_of_landed stands (landed rest)⟩
      · refine Or.inl ⟨wish', ?_⟩
        have last : before ++ event :: (rest ++ [next]) = (before ++ event :: rest) ++ [next] := by
          simp
        rw [last, after_concat]
        exact caller_kept stands turn stays'.2
    · exact Or.inr ⟨middle, later ++ [next], wish', by simp [split], returns⟩

theorem takesOver_of_deserted {events : List SessionEvent} {i f : Nat} {signature : String}
    (follows : (after events).Follows i f signature) (deserted : Deserted events i f signature) :
    TakesOver events i signature := by
  obtain ⟨wish, found, rfl⟩ := follows
  have again := advance_abandoned found deserted.abandoned
  have next := (after_concat events (.advance i)).trans again
  rcases (after events).lookUp_cases i ⟨wish, .following f⟩ with
    ⟨value, young, looked⟩ | ⟨_, flight, joinable, looked⟩ | ⟨_, _, looked⟩
  · refine .served wish value (fresh_of_young young) ⟨Or.inr ⟨rfl, _, found⟩, ?_, ?_⟩
    · rw [again, looked]
      exact finish_place found _
    · rw [again, looked]
      rfl
  · obtain ⟨current, running⟩ := joinable_running joinable
    refine .joins flight running current ⟨wish, ?_, rfl⟩
    rw [next, looked]
    exact setPhase_place found _
  · have led : (after (events ++ [.advance i])).Leads i (after events).cache.flights.length
        wish.signature := by
      rw [next, looked]
      exact ⟨_, _, setPhase_place (s := { after events with cache := _, fetched := _ }) found _,
        rfl, rfl⟩
    have starts : Starts (after events).cache.flights.length wish.signature events (.advance i) :=
      ⟨fun ⟨_, led'⟩ => (linked events).not_leads_length led', i, led⟩
    have current : Current (events ++ [.advance i]) (after events).cache.flights.length
        wish.signature := Since.now starts
    refine .leads _ led ?_
    intro other flight' led' current'
    have awaited := ((linked _).marker _ _).mpr ⟨current, i, led⟩
    have awaited' := ((linked _).marker _ _).mpr ⟨current', other, led'⟩
    rw [awaited] at awaited'
    cases awaited'
    exact (linked _).apart _ _ _ _ _ led' led

/-! ## Who fetches -/

/-- A caller that has started its fetch, or is gone. -/
def Spent (s : Session) (index : Nat) : Prop :=
  ∃ wish phase, s.callers[index]? = some ⟨wish, phase⟩ ∧ ∀ f, phase ≠ .following f

theorem lookUp_spent {s : Session} {i id : Nat} {caller : Caller}
    (found : s.callers[i]? = some caller)
    (fetched : (s.lookUp i caller).fetched = s.fetched ++ [id]) : (s.lookUp i caller).Spent i := by
  rcases s.lookUp_cases i caller with ⟨_, _, looked⟩ | ⟨_, _, _, looked⟩ | ⟨_, _, looked⟩
  · rw [looked] at fetched
    simp [finish, setPhase] at fetched
  · rw [looked] at fetched
    simp [setPhase] at fetched
  · rw [looked]
    exact ⟨_, _, setPhase_place (s := { s with cache := _, fetched := _ }) found _, by simp⟩

theorem StartsFetch.spent {s : Session} {event : SessionEvent} {i : Nat} {wish : Wish}
    (starts : s.StartsFetch event i wish) : (s.happen event).Spent i := by
  have fetched := starts.fetched
  have unchanged : (s.happen event).fetched ≠ s.fetched := by
    rw [fetched]
    simp
  rcases starts.turn with ⟨rfl, rfl⟩ | ⟨rfl, phase, found⟩
  · rw [happen_arrive] at fetched ⊢
    exact lookUp_spent (s.enter_found wish) fetched
  · have turn := advance_turn found
    generalize s.happen (.advance i) = s' at turn fetched unchanged ⊢
    cases turn with
    | again f still unended => exact lookUp_spent found fetched
    | _ => exact absurd rfl unchanged

theorem Spent.happen {s : Session} {i : Nat} (spent : s.Spent i) (event : SessionEvent) :
    (s.happen event).Spent i := by
  obtain ⟨wish, phase, found, past⟩ := spent
  obtain ⟨phase', found'⟩ := happen_place found event
  refine ⟨wish, phase', found', ?_⟩
  cases happen_move found' with
  | stays before =>
    rw [found] at before
    cases before
    exact past
  | leaves cause settled => simp_all
  | arrives wish' cause last looked =>
    subst last
    simp at found
  | lands cause wish' f landing cache moved done =>
    rw [done] at found'
    cases (finish_place (s := { s with cache }) moved _).symm.trans found'
    simp
  | shares cause wish' f result moved landed done =>
    rw [done] at found'
    cases (finish_place moved _).symm.trans found'
    simp
  | again cause wish' f moved still unended looked =>
    rw [found] at moved
    cases moved
    exact absurd rfl (past f)

theorem Spent.not_starts {s : Session} {event : SessionEvent} {i : Nat} {wish : Wish}
    (spent : s.Spent i) : ¬ s.StartsFetch event i wish := by
  intro starts
  obtain ⟨wish', phase, found, past⟩ := spent
  have unchanged : (s.happen event).fetched ≠ s.fetched := by
    rw [starts.fetched]
    simp
  rcases starts.turn with ⟨rfl, rfl⟩ | ⟨rfl, _, _⟩
  · simp at found
  · have turn := advance_turn found
    generalize s.happen (.advance i) = s' at turn unchanged
    cases turn with
    | again f still unended => exact absurd rfl (past f)
    | _ => exact absurd rfl unchanged

theorem starts_once {before middle : List SessionEvent} {event event' : SessionEvent} {i : Nat}
    {wish wish' : Wish} (starts : (after before).StartsFetch event i wish) :
    ¬ (after (before ++ event :: middle)).StartsFetch event' i wish' := by
  have spent : (after (before ++ event :: middle)).Spent i := by
    induction middle using List.reverseRecOn with
    | nil =>
      rw [after_concat]
      exact starts.spent
    | append_singleton middle next earlier =>
      have last : before ++ event :: (middle ++ [next]) =
        (before ++ event :: middle) ++ [next] := by
        simp
      rw [last, after_concat]
      exact earlier.happen next
  exact spent.not_starts

/-- Under every schedule, followers share the one result of the fetch that they joined, and none is
left behind. -/
theorem sharing_after (events : List SessionEvent) : Sharing events where
  logged := returned_logged events
  source _ _ _ _ returns := source_of_returns returns
  single before rest index flight signature wish phase split follows stands goesOn apart := by
    subst split
    exact deserted_of_apart follows stands goesOn apart
  leader event flight signature result completes := by
    obtain ⟨index, ⟨wish, _⟩, landing, rfl, found, phase, due, rfl, rfl⟩ := completes
    cases phase
    exact ⟨index, wish, ⟨_, landing, found, rfl, rfl⟩, returns_of_due found due⟩
  shared before event rest index flight signature result split completes follows stays := by
    subst split
    have landed : Shared (before ++ event :: rest) index flight signature result :=
      ⟨before, event, rest, rfl, follows, completes⟩
    rcases shared_returns completes follows stays with ⟨wish, stands⟩ | returned
    · exact Or.inl ⟨wish, returns_of_landed stands landed.landed⟩
    · exact Or.inr returned
  takesOver _ _ _ follows deserted := takesOver_of_deserted follows deserted
  waits stuck index flight signature follows := by
    obtain ⟨wish, found, _⟩ := id follows
    have still := stuck index
    cases fate_of_follows follows with
    | runs running => exact running
    | shared result shared => simp [stepCaller, found, shared.landed] at still
    | deserted deserted => simp [stepCaller, found, deserted.abandoned] at still
  once before event middle event' rest index wish wish' _ starts := starts_once starts

end ProxyConsole.Cache.Session
