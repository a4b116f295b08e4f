import ProxyConsole.Proofs.Client.Mutations

/-!
# What follows an empty cache

From a client whose cache knows nothing of a resource, every event leads on to a client whose cache
holds only what was asked for since.  Fetches launched before are told from later ones by their
numbers: no slot waits for them, and no later reader has to do with them.
-/

set_option autoImplicit false

namespace ProxyConsole

open ProxyConsole.Positions

/-- Whether the fetch that a read has to do with, if any, is one of those numbered from a
bound on. -/
def ReadPhase.IsFrom (bound : Nat) : ReadPhase → Prop
  | .arriving => True
  | .following flight => bound ≤ flight
  | .leading flight _ => bound ≤ flight

namespace Client

/-- A request for a resource was sent under a ticket, and not yet when the client stood as
`start`. -/
def SentSince (r : Resource) (start cl : Client) (t : Ticket) : Prop :=
  ∃ n, start.sends.length ≤ n ∧
    cl.sends[n]? = some ⟨t, (Request.get r.path).envelope t.id⟩

/-- One of the events delivers a response to a ticket whose call is pending. -/
def Delivers (start : Client) (events : List ClientEvent) (t : Ticket) (e : InboundEnvelope) :
    Prop :=
  ∃ before event rest, events = before ++ event :: rest ∧
    t ∈ (start.run before).correlator.pending ∧
    (t, e) ∈ (start.run (before ++ [event])).correlator.delivered ∧ e.requestId = t.id

/-- A value is decoded from the response to a request that was sent since. -/
def FetchedSince (r : Resource) (start : Client) (events : List ClientEvent) (value : r.Value) :
    Prop :=
  ∃ t e body, SentSince r start (start.run events) t ∧ Delivers start events t e ∧
    e.classify = .ok body ∧ decodeBody r.codec r.path body = .ok value

/-! ## What holds of every client -/

/-- Leaders run fetches that were launched, and the correlator has its shape. -/
structure Sound (r : Resource) (cl : Client) : Prop where
  shape : cl.correlator.WellFormed
  launched : ∀ i flight call, cl.Reads r i (.leading flight call) →
    flight < (cl.cacheOf r).flights.length

theorem Sound.step {r : Resource} {cl : Client} (sound : cl.Sound r) (event : ClientEvent) :
    (cl.step event).Sound r := by
  refine ⟨(cl.step_extends event).correlator.wellFormed sound.shape, ?_⟩
  intro i flight call led
  cases cl.step_touch event r with
  | calm cache onward =>
    rw [cache]
    obtain ⟨before, earlier, _⟩ := (onward i _ led).leading_cases
    exact sound.launched i flight before earlier
  | launches j phase call' before sent cache onward =>
    rw [cache, Cache.flights_launch, List.length_append]
    rcases onward i _ led with ⟨_, same⟩ | earlier
    · cases same
      exact Nat.lt_succ_self _
    · exact Nat.lt_succ_of_lt (sound.launched i flight call earlier)
  | lands j flight' call' result led' obtained cache onward =>
    rw [cache, Cache.flights_land, List.length_set]
    exact sound.launched i flight call (onward i _ led)
  | givesUp j flight' call' led' cache onward =>
    rw [cache, Cache.flights_abandon, List.length_set]
    exact sound.launched i flight call (onward i _ led)
  | drops cache onward =>
    rw [cache]
    exact sound.launched i flight call (onward i _ led)

theorem sound_run (r : Resource) (settings : Settings) (events : List ClientEvent) :
    (run { settings } events).Sound r := by
  induction events using List.reverseRecOn with
  | nil =>
    refine ⟨Correlator.wellFormed_empty, ?_⟩
    rintro i flight call ⟨job, found, _⟩
    cases found
  | append_singleton events event earlier =>
    rw [run_concat]
    exact earlier.step event

/-! ## What was fetched since stays so -/

theorem SentSince.extends {r : Resource} {start cl cl' : Client} {t : Ticket}
    (sent : SentSince r start cl t) (longer : cl.sends <+: cl'.sends) :
    SentSince r start cl' t := by
  obtain ⟨n, later, found⟩ := sent
  exact ⟨n, later, getElem?_of_prefix longer found⟩

theorem Delivers.concat {start : Client} {events : List ClientEvent} {t : Ticket}
    {e : InboundEnvelope} (delivers : Delivers start events t e) (event : ClientEvent) :
    Delivers start (events ++ [event]) t e := by
  obtain ⟨before, delivery, rest, rfl, pending, delivered, own⟩ := delivers
  exact ⟨before, delivery, rest ++ [event], by simp, pending, delivered, own⟩

theorem FetchedSince.concat {r : Resource} {start : Client} {events : List ClientEvent}
    {value : r.Value} (fetched : FetchedSince r start events value) (event : ClientEvent) :
    FetchedSince r start (events ++ [event]) value := by
  obtain ⟨t, e, body, sent, delivers, classified, decoded⟩ := fetched
  refine ⟨t, e, body, sent.extends ?_, delivers.concat event, classified, decoded⟩
  rw [run_concat]
  exact ((start.run events).step_extends event).sends

/-! ## What every later event keeps -/

/-- Nothing in the cache, and nothing that a later reader has to do with, comes from before
`start`. -/
structure Ahead (r : Resource) (start : Client) (events : List ClientEvent) : Prop where
  marker : ∀ flight, (((start.run events).cacheOf r).slots r.path).inFlight = some flight →
    (start.cacheOf r).flights.length ≤ flight
  entry : ∀ value moment, (((start.run events).cacheOf r).slots r.path).entry =
    some ⟨value, moment⟩ → FetchedSince r start events value
  landed : ∀ flight value, (start.cacheOf r).flights.length ≤ flight →
    ((start.run events).cacheOf r).flights[flight]? = some (.landed (.ok value)) →
      FetchedSince r start events value
  launched : (start.cacheOf r).flights.length ≤ ((start.run events).cacheOf r).flights.length
  leader : ∀ i flight call a, (start.run events).Reads r i (.leading flight call) →
    (start.cacheOf r).flights.length ≤ flight → call.attempt? = some a →
      SentSince r start (start.run events) a.ticket ∧
        start.correlator.registered ≤ a.ticket.serial
  later : ∀ i phase, start.jobs.length ≤ i → (start.run events).Reads r i phase →
    phase.IsFrom (start.cacheOf r).flights.length
  delivered : ∀ t e, (t, e) ∈ (start.run events).correlator.delivered →
    start.correlator.registered ≤ t.serial → Delivers start events t e

variable {r : Resource} {start : Client} {events : List ClientEvent}

theorem Ahead.of_dropped (sound : start.Sound r) {cache : Cache r.Value}
    (dropped : start.cacheOf r = cache.invalidate r.path) : Ahead r start [] where
  marker := by
    intro flight awaited
    have empty : ((start.cacheOf r).slots r.path).inFlight = none := by
      rw [dropped, Cache.invalidate, Cache.slots_setSlot, if_pos rfl]
    exact absurd (awaited.symm.trans empty) (by simp)
  entry := by
    intro value moment kept
    have empty : ((start.cacheOf r).slots r.path).entry = none := by
      rw [dropped, Cache.invalidate, Cache.slots_setSlot, if_pos rfl]
    exact absurd (kept.symm.trans empty) (by simp)
  landed := by
    intro flight value bound found
    have inside := (List.getElem?_eq_some_iff.mp found).1
    exact absurd inside (Nat.not_lt.mpr bound)
  launched := Nat.le_refl _
  leader := by
    intro i flight call a led bound
    exact absurd (sound.launched i flight call led) (Nat.not_lt.mpr bound)
  later := by
    rintro i phase bound ⟨job, found, _⟩
    have inside := (List.getElem?_eq_some_iff.mp found).1
    exact absurd inside (Nat.not_lt.mpr bound)
  delivered := by
    intro t e member bound
    exact absurd (sound.shape.delivered_registered _ member) (Nat.not_lt.mpr bound)

/-- What a fetch launched since succeeds with was asked for since. -/
theorem Ahead.fetched (ahead : Ahead r start events) {i flight : Nat} {call : CallPhase}
    {value : r.Value} (led : (start.run events).Reads r i (.leading flight call))
    (bound : (start.cacheOf r).flights.length ≤ flight)
    (obtained : ((start.run events).planOf r).fetch.Obtains call (start.run events).correlator
      value) : FetchedSince r start events value := by
  obtain ⟨a, e, body, attempting, delivered, classified, decoded⟩ := obtained
  obtain ⟨sent, serial⟩ := ahead.leader i flight call a led bound attempting
  rw [planOf_decode] at decoded
  exact ⟨a.ticket, e, body, sent, ahead.delivered _ e delivered serial, classified, decoded⟩

theorem sentSince_of_sendsFrom {event : ClientEvent} {call : CallPhase}
    (sent : SendsFrom r (start.run events) (start.run (events ++ [event])) call) {a : Attempt}
    (attempting : call.attempt? = some a) :
    SentSince r start (start.run (events ++ [event])) a.ticket ∧
      start.correlator.registered ≤ a.ticket.serial := by
  obtain ⟨found, serial⟩ := sent a attempting
  refine ⟨⟨_, (start.run_grows events).sends.length_le, found⟩, ?_⟩
  rw [serial]
  exact (start.run_grows events).registered

theorem Ahead.marker_concat (ahead : Ahead r start events) {event : ClientEvent} {flight : Nat}
    (touch : Touch r (start.run events) (start.run (events ++ [event])))
    (awaited : (((start.run (events ++ [event])).cacheOf r).slots r.path).inFlight = some flight) :
    (start.cacheOf r).flights.length ≤ flight := by
  cases touch with
  | calm cache onward =>
    rw [cache] at awaited
    exact ahead.marker flight awaited
  | launches i phase call before sent cache onward =>
    rw [cache, Cache.slots_launch, if_pos rfl] at awaited
    cases awaited
    exact ahead.launched
  | lands i flight' call result led obtained cache onward =>
    rw [cache, Cache.inFlight_land] at awaited
    split at awaited
    · cases awaited
    · exact ahead.marker flight awaited
  | givesUp i flight' call led cache onward =>
    rw [cache, Cache.inFlight_abandon] at awaited
    split at awaited
    · cases awaited
    · exact ahead.marker flight awaited
  | drops cache onward =>
    rw [cache, Cache.invalidate, Cache.slots_setSlot, if_pos rfl] at awaited
    cases awaited

theorem Ahead.entry_concat (ahead : Ahead r start events) {event : ClientEvent} {value : r.Value}
    {moment : Nat} (touch : Touch r (start.run events) (start.run (events ++ [event])))
    (kept : (((start.run (events ++ [event])).cacheOf r).slots r.path).entry =
      some ⟨value, moment⟩) : FetchedSince r start (events ++ [event]) value := by
  cases touch with
  | calm cache onward =>
    rw [cache] at kept
    exact (ahead.entry value moment kept).concat event
  | launches i phase call before sent cache onward =>
    rw [cache, Cache.entry_launch] at kept
    exact (ahead.entry value moment kept).concat event
  | lands i flight call result led obtained cache onward =>
    rw [cache] at kept
    by_cases awaited : (((start.run events).cacheOf r).slots r.path).inFlight = some flight
    · -- only a fetch that the slot waits for is stored, and that one was launched since
      cases result with
      | error e =>
        rw [Cache.entry_land_error] at kept
        exact (ahead.entry value moment kept).concat event
      | ok stored =>
        rw [Cache.land_awaited awaited, Cache.slots_setSlot, if_pos rfl] at kept
        cases kept
        exact (ahead.fetched led (ahead.marker flight awaited) (obtained value rfl)).concat event
    · rw [Cache.land_overtaken awaited] at kept
      exact (ahead.entry value moment kept).concat event
  | givesUp i flight call led cache onward =>
    rw [cache, Cache.entry_abandon] at kept
    exact (ahead.entry value moment kept).concat event
  | drops cache onward =>
    rw [cache, Cache.invalidate, Cache.slots_setSlot, if_pos rfl] at kept
    cases kept

theorem Ahead.landed_concat (ahead : Ahead r start events) {event : ClientEvent} {flight : Nat}
    {value : r.Value} (touch : Touch r (start.run events) (start.run (events ++ [event])))
    (bound : (start.cacheOf r).flights.length ≤ flight)
    (landed : ((start.run (events ++ [event])).cacheOf r).flights[flight]? =
      some (.landed (.ok value))) : FetchedSince r start (events ++ [event]) value := by
  cases touch with
  | calm cache onward =>
    rw [cache] at landed
    exact (ahead.landed flight value bound landed).concat event
  | launches i phase call before sent cache onward =>
    rw [cache, Cache.flights_launch] at landed
    rcases getElem?_concat_cases landed with earlier | ⟨_, running⟩
    · exact (ahead.landed flight value bound earlier).concat event
    · cases running
  | lands i flight' call result led obtained cache onward =>
    rw [cache, Cache.flights_land] at landed
    rcases getElem?_set_cases landed with ⟨rfl, own⟩ | ⟨_, earlier⟩
    · cases own
      exact (ahead.fetched led bound (obtained value rfl)).concat event
    · exact (ahead.landed flight value bound earlier).concat event
  | givesUp i flight' call led cache onward =>
    rw [cache, Cache.flights_abandon] at landed
    rcases getElem?_set_cases landed with ⟨_, abandoned⟩ | ⟨_, earlier⟩
    · cases abandoned
    · exact (ahead.landed flight value bound earlier).concat event
  | drops cache onward =>
    rw [cache] at landed
    exact (ahead.landed flight value bound landed).concat event

theorem Ahead.leader_concat (ahead : Ahead r start events) {event : ClientEvent} {i flight : Nat}
    {call : CallPhase} {a : Attempt}
    (touch : Touch r (start.run events) (start.run (events ++ [event])))
    (led : (start.run (events ++ [event])).Reads r i (.leading flight call))
    (bound : (start.cacheOf r).flights.length ≤ flight) (attempting : call.attempt? = some a) :
    SentSince r start (start.run (events ++ [event])) a.ticket ∧
      start.correlator.registered ≤ a.ticket.serial := by
  have longer : (start.run events).sends <+: (start.run (events ++ [event])).sends := by
    rw [run_concat]
    exact ((start.run events).step_extends event).sends
  have remains : ∀ {call' : CallPhase} {b : Attempt},
      (start.run events).Reads r i (.leading flight call') → call'.attempt? = some b →
        SentSince r start (start.run (events ++ [event])) b.ticket ∧
          start.correlator.registered ≤ b.ticket.serial := by
    intro call' b earlier attempting'
    obtain ⟨sent, serial⟩ := ahead.leader i flight call' b earlier bound attempting'
    exact ⟨sent.extends longer, serial⟩
  cases touch with
  | calm cache onward =>
    obtain ⟨before, earlier, kept | sent⟩ := (onward i _ led).leading_cases
    · obtain ⟨b, attempting', same⟩ := kept a attempting
      rw [same]
      exact remains earlier attempting'
    · exact sentSince_of_sendsFrom sent attempting
  | launches j phase call' before sent cache onward =>
    rcases onward i _ led with ⟨_, same⟩ | earlier
    · cases same
      exact sentSince_of_sendsFrom sent attempting
    · exact remains earlier attempting
  | lands j flight' call' result led' obtained cache onward =>
    exact remains (onward i _ led) attempting
  | givesUp j flight' call' led' cache onward => exact remains (onward i _ led) attempting
  | drops cache onward => exact remains (onward i _ led) attempting

theorem Ahead.later_concat (ahead : Ahead r start events) {event : ClientEvent} {i : Nat}
    {phase : ReadPhase} (touch : Touch r (start.run events) (start.run (events ++ [event])))
    (late : start.jobs.length ≤ i) (reads : (start.run (events ++ [event])).Reads r i phase) :
    phase.IsFrom (start.cacheOf r).flights.length := by
  cases touch with
  | calm cache onward =>
    cases onward i phase reads with
    | keeps before => exact ahead.later i phase late before
    | hears f same before =>
      have bound := ahead.later i _ late before
      rename_i earlier
      cases earlier <;> exact bound
    | arrives last => trivial
    | follows flight before running =>
      exact ahead.marker flight (Cache.joinable?_eq_some.mp running).1
    | proceeds flight call call' before sent =>
      exact ahead.later i (.leading flight call) late before
  | launches j before call reads' sent cache onward =>
    rcases onward i phase reads with ⟨_, rfl⟩ | earlier
    · exact ahead.launched
    · exact ahead.later i phase late earlier
  | lands j flight call result led obtained cache onward =>
    exact ahead.later i phase late (onward i phase reads)
  | givesUp j flight call led cache onward => exact ahead.later i phase late (onward i phase reads)
  | drops cache onward => exact ahead.later i phase late (onward i phase reads)

theorem Ahead.delivered_concat (ahead : Ahead r start events) {event : ClientEvent} {t : Ticket}
    {e : InboundEnvelope}
    (member : (t, e) ∈ (start.run (events ++ [event])).correlator.delivered)
    (bound : start.correlator.registered ≤ t.serial) :
    Delivers start (events ++ [event]) t e := by
  have extend := (start.run events).step_extends event
  rw [← run_concat] at extend
  rcases extend.correlator.delivered_cases member with earlier | ⟨pending, own⟩
  · exact (ahead.delivered t e earlier bound).concat event
  · exact ⟨events, event, [], rfl, pending, member, own⟩

theorem Ahead.concat (ahead : Ahead r start events) (event : ClientEvent) :
    Ahead r start (events ++ [event]) := by
  have touch := (start.run events).step_touch event r
  rw [← run_concat] at touch
  exact
    { marker := fun _ => ahead.marker_concat touch
      entry := fun _ _ => ahead.entry_concat touch
      landed := fun _ _ => ahead.landed_concat touch
      launched := Nat.le_trans ahead.launched touch.launched_le
      leader := fun _ _ _ _ => ahead.leader_concat touch
      later := fun _ _ => ahead.later_concat touch
      delivered := fun _ _ => ahead.delivered_concat }

theorem ahead_run (sound : start.Sound r) {cache : Cache r.Value}
    (dropped : start.cacheOf r = cache.invalidate r.path) (events : List ClientEvent) :
    Ahead r start events := by
  induction events using List.reverseRecOn with
  | nil => exact .of_dropped sound dropped
  | append_singleton events event earlier => exact earlier.concat event

end Client

end ProxyConsole
