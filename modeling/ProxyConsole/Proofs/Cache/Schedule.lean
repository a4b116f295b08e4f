import ProxyConsole.Cache.Session
import ProxyConsole.Proofs.Cache.Basic
import ProxyConsole.Proofs.Positions

/-!
# Callers of the cache under any schedule

Callers arrive, go on and go away in any order, and between two of their moves anything may be
forgotten and any time may pass.  To the cache only four things ever happen: a fetch is launched, it
lands, it is given up, or signatures are forgotten.
-/

set_option autoImplicit false

namespace ProxyConsole.Cache

/-- The next thing to happen in a session. -/
inductive SessionEvent where
  | arrive (wish : Wish)
  | advance (caller : Nat)
  | leave (caller : Nat)
  | invalidate (signature : String)
  | invalidateStarting (start : String)
  | clear
  | pass (moment : Nat)

/-- Whether an event makes the cache forget a signature. -/
def SessionEvent.forgets : SessionEvent → String → Bool
  | .invalidate signature, s => s = signature
  | .invalidateStarting start, s => start.toList.isPrefixOf s.toList
  | .clear, _ => true
  | _, _ => false

namespace Session

open ProxyConsole.Positions

/-- What an event does. -/
def happen (s : Session) : SessionEvent → Session
  | .arrive wish => (s.perform (.get wish)).2
  | .advance caller => (s.stepCaller caller).getD s
  | .leave caller => s.leave caller
  | .invalidate signature => (s.perform (.invalidate signature)).2
  | .invalidateStarting start => (s.perform (.invalidateStarting start)).2
  | .clear => (s.perform .clear).2
  | .pass moment => { s with now := max s.now moment }

/-- What a sequence of events does. -/
def runEvents (s : Session) (events : List SessionEvent) : Session :=
  events.foldl happen s

/-- The session after a sequence of events from the start. -/
def after (events : List SessionEvent) : Session :=
  runEvents {} events

/-- A caller enters, and is about to look its signature up. -/
def enter (s : Session) (wish : Wish) : Session :=
  { s with callers := s.callers ++ [⟨wish, .over⟩] }

theorem after_concat (events : List SessionEvent) (event : SessionEvent) :
    after (events ++ [event]) = (after events).happen event := by
  simp [after, runEvents]

/-- The caller at an index runs a fetch for a signature. -/
def Leads (s : Session) (index flight : Nat) (signature : String) : Prop :=
  ∃ caller landing, s.callers[index]? = some caller ∧ caller.phase = .fetching flight landing ∧
    caller.wish.signature = signature

/-- An event lets a running fetch come to its end, with the result it was to have. -/
def Completes (s : Session) (event : SessionEvent) (flight : Nat) (signature : String)
    (result : Except CallError String) : Prop :=
  ∃ index caller landing, event = .advance index ∧ s.callers[index]? = some caller ∧
    caller.phase = .fetching flight landing ∧ landing ≤ s.now ∧
    caller.wish.signature = signature ∧ caller.wish.fetchResult = result

/-! ## Callers -/

theorem leads_of_callers {s s' : Session} (same : s'.callers = s.callers) {i f : Nat}
    {signature : String} : s'.Leads i f signature ↔ s.Leads i f signature := by
  simp only [Leads, same]

theorem leads_unique {s : Session} {i f g : Nat} {signature other : String}
    (leads : s.Leads i f signature) (leads' : s.Leads i g other) :
    f = g ∧ signature = other := by
  obtain ⟨caller, landing, found, phase, own⟩ := leads
  obtain ⟨caller', landing', found', phase', own'⟩ := leads'
  rw [found] at found'
  cases found'
  rw [phase] at phase'
  cases phase'
  exact ⟨rfl, own.symm.trans own'⟩

theorem leads_setPhase {s : Session} {i : Nat} {caller : Caller}
    (found : s.callers[i]? = some caller) (phase : CallerPhase) {j f : Nat} {signature : String} :
    (s.setPhase i caller phase).Leads j f signature ↔
      (j ≠ i ∧ s.Leads j f signature) ∨
        (j = i ∧ caller.wish.signature = signature ∧ ∃ landing, phase = .fetching f landing) := by
  simp only [Leads, setPhase]
  by_cases same : j = i
  · subst same
    rw [getElem?_set_of_some _ found]
    constructor
    · rintro ⟨_, landing, at_, led, own⟩
      cases at_
      exact Or.inr ⟨rfl, own, landing, led⟩
    · rintro (⟨other, _⟩ | ⟨_, own, landing, led⟩)
      · exact absurd rfl other
      · exact ⟨_, landing, rfl, led, own⟩
  · rw [List.getElem?_set_ne (Ne.symm same)]
    simp [same]

theorem leads_setPhase_idle {s : Session} {i : Nat} {caller : Caller}
    (found : s.callers[i]? = some caller) {phase : CallerPhase}
    (idle : ∀ f landing, phase ≠ .fetching f landing) {j f : Nat} {signature : String} :
    (s.setPhase i caller phase).Leads j f signature ↔ s.Leads j f signature ∧ j ≠ i := by
  rw [leads_setPhase found]
  constructor
  · rintro (⟨other, leads⟩ | ⟨_, _, landing, led⟩)
    · exact ⟨leads, other⟩
    · exact absurd led (idle f landing)
  · rintro ⟨leads, other⟩
    exact Or.inl ⟨other, leads⟩

theorem leads_setPhase_still {s : Session} {i : Nat} {caller : Caller}
    (found : s.callers[i]? = some caller) (idle : ∀ f landing, caller.phase ≠ .fetching f landing)
    {phase : CallerPhase} (still : ∀ f landing, phase ≠ .fetching f landing) {j f : Nat}
    {signature : String} :
    (s.setPhase i caller phase).Leads j f signature ↔ s.Leads j f signature := by
  rw [leads_setPhase_idle found still]
  refine and_iff_left_of_imp ?_
  rintro ⟨caller', landing, found', led, _⟩ rfl
  rw [found] at found'
  cases found'
  exact idle f landing led

theorem lookUp_cases (s : Session) (i : Nat) (caller : Caller) :
    (∃ value, s.cache.fresh? s.now caller.wish.ttl caller.wish.signature = some value ∧
        s.lookUp i caller = s.finish i caller (.ok value)) ∨
      (s.cache.fresh? s.now caller.wish.ttl caller.wish.signature = none ∧ ∃ flight,
        s.cache.joinable? caller.wish.signature = some flight ∧
        s.lookUp i caller = s.setPhase i caller (.following flight)) ∨
      (s.cache.fresh? s.now caller.wish.ttl caller.wish.signature = none ∧
        s.cache.joinable? caller.wish.signature = none ∧
        s.lookUp i caller =
          { s with
            cache := s.cache.launch caller.wish.signature
            fetched := s.fetched ++ [caller.wish.id] }.setPhase i caller
              (.fetching s.cache.flights.length (s.now + caller.wish.fetchTime))) := by
  rcases s.cache.inspect_cases s.now caller.wish.ttl caller.wish.signature with
    ⟨value, young, looked⟩ | ⟨old, flight, running, looked⟩ | ⟨old, free, looked⟩
  · exact Or.inl ⟨value, young, by simp only [lookUp, looked]⟩
  · exact Or.inr (Or.inl ⟨old, flight, running, by simp only [lookUp, looked]⟩)
  · exact Or.inr (Or.inr ⟨old, free, by simp only [lookUp, looked]⟩)

theorem lookUp_of_young {s : Session} {i : Nat} {caller : Caller} {value : String}
    (young : s.cache.fresh? s.now caller.wish.ttl caller.wish.signature = some value) :
    s.lookUp i caller = s.finish i caller (.ok value) := by
  simp only [lookUp, inspect, young]

theorem lookUp_of_joinable {s : Session} {i f : Nat} {caller : Caller}
    (old : s.cache.fresh? s.now caller.wish.ttl caller.wish.signature = none)
    (running : s.cache.joinable? caller.wish.signature = some f) :
    s.lookUp i caller = s.setPhase i caller (.following f) := by
  simp only [lookUp, inspect, old, running]

theorem lookUp_of_free {s : Session} {i : Nat} {caller : Caller}
    (old : s.cache.fresh? s.now caller.wish.ttl caller.wish.signature = none)
    (free : s.cache.joinable? caller.wish.signature = none) :
    s.lookUp i caller =
      { s with
        cache := s.cache.launch caller.wish.signature
        fetched := s.fetched ++ [caller.wish.id] }.setPhase i caller
          (.fetching s.cache.flights.length (s.now + caller.wish.fetchTime)) := by
  simp only [lookUp, inspect, old, free]
  rfl

/-! ## What one event does to the cache -/

/-- All that an event can do to the cache and to those who run fetches. -/
inductive Effect (s : Session) (event : SessionEvent) (s' : Session) : Prop where
  | quiet (calm : ∀ signature, event.forgets signature = false) (cache : s'.cache = s.cache)
      (leads : ∀ i f signature, s'.Leads i f signature ↔ s.Leads i f signature)
  | launches (i : Nat) (signature : String) (calm : ∀ other, event.forgets other = false)
      (free : s.cache.joinable? signature = none) (cache : s'.cache = s.cache.launch signature)
      (leads : ∀ j f other, s'.Leads j f other ↔
        s.Leads j f other ∨ (j = i ∧ f = s.cache.flights.length ∧ other = signature))
  | lands (i f : Nat) (signature : String) (result : Except CallError String)
      (led : s.Leads i f signature) (completes : s.Completes event f signature result)
      (cache : s'.cache = s.cache.land s.now signature f result)
      (leads : ∀ j g other, s'.Leads j g other ↔ s.Leads j g other ∧ j ≠ i)
  | givesUp (i f : Nat) (signature : String) (led : s.Leads i f signature)
      (cause : event = .leave i) (cache : s'.cache = s.cache.abandon signature f)
      (leads : ∀ j g other, s'.Leads j g other ↔ s.Leads j g other ∧ j ≠ i)
  | forgets (cache : s'.cache = s.cache.forget event.forgets)
      (leads : ∀ i f signature, s'.Leads i f signature ↔ s.Leads i f signature)

theorem lookUp_effect {s s₀ : Session} {event : SessionEvent} {i : Nat} {caller : Caller}
    (calm : ∀ signature, event.forgets signature = false) (cache : s₀.cache = s.cache)
    (leads : ∀ j f signature, s₀.Leads j f signature ↔ s.Leads j f signature)
    (found : s₀.callers[i]? = some caller)
    (idle : ∀ f landing, caller.phase ≠ .fetching f landing) :
    Effect s event (s₀.lookUp i caller) := by
  rcases s₀.lookUp_cases i caller with
    ⟨value, young, looked⟩ | ⟨old, flight, running, looked⟩ | ⟨old, free, looked⟩
  · rw [looked]
    refine .quiet calm cache ?_
    intro j f signature
    exact (leads_setPhase_still found idle (by simp)).trans (leads j f signature)
  · rw [looked]
    refine .quiet calm cache ?_
    intro j f signature
    exact (leads_setPhase_still found idle (by simp)).trans (leads j f signature)
  · rw [looked]
    rw [cache] at free
    refine .launches i caller.wish.signature calm free (by rw [← cache]; rfl) ?_
    intro j f other
    have apart : s.Leads j f other → j ≠ i := by
      rintro led rfl
      obtain ⟨caller', landing, found', phase, _⟩ := (leads j f other).mpr led
      rw [found] at found'
      cases found'
      exact idle f landing phase
    refine (leads_setPhase (s := { s₀ with cache := _, fetched := _ }) found _).trans ?_
    rw [leads_of_callers (show _ = s₀.callers from rfl), leads, cache]
    constructor
    · rintro (⟨_, led⟩ | ⟨rfl, own, landing, phase⟩)
      · exact Or.inl led
      · cases phase
        exact Or.inr ⟨rfl, rfl, own.symm⟩
    · rintro (led | ⟨rfl, rfl, rfl⟩)
      · exact Or.inl ⟨apart led, led⟩
      · exact Or.inr ⟨rfl, rfl, _, rfl⟩

theorem enter_found (s : Session) (wish : Wish) :
    (s.enter wish).callers[s.callers.length]? = some ⟨wish, .over⟩ :=
  List.getElem?_concat_length

theorem leads_enter (s : Session) (wish : Wish) (j f : Nat) (signature : String) :
    (s.enter wish).Leads j f signature ↔ s.Leads j f signature := by
  constructor
  · rintro ⟨caller, landing, at_, phase, own⟩
    rcases getElem?_concat_cases at_ with earlier | ⟨_, rfl⟩
    · exact ⟨caller, landing, earlier, phase, own⟩
    · cases phase
  · rintro ⟨caller, landing, at_, phase, own⟩
    exact ⟨caller, landing, getElem?_concat_of_some _ at_, phase, own⟩

theorem callers_enter_setPhase (s : Session) (wish : Wish) (phase : CallerPhase) :
    ((s.enter wish).setPhase s.callers.length ⟨wish, .over⟩ phase).callers =
      s.callers ++ [⟨wish, phase⟩] := by
  simp [setPhase, enter]

theorem happen_arrive (s : Session) (wish : Wish) :
    s.happen (.arrive wish) = (s.enter wish).lookUp s.callers.length ⟨wish, .over⟩ := by
  have place : (s.callers ++ [(⟨wish, .over⟩ : Caller)]).length - 1 = s.callers.length := by simp
  simp only [happen, perform, place]
  rfl

theorem arrive_effect (s : Session) (wish : Wish) :
    Effect s (.arrive wish) (s.happen (.arrive wish)) := by
  rw [happen_arrive]
  exact lookUp_effect (fun _ => rfl) rfl (s.leads_enter wish) (s.enter_found wish) (by simp)

theorem advance_effect (s : Session) (index : Nat) :
    Effect s (.advance index) (s.happen (.advance index)) := by
  have stays : Effect s (.advance index) s := .quiet (fun _ => rfl) rfl (fun _ _ _ => Iff.rfl)
  simp only [happen, stepCaller]
  cases found : s.callers[index]? with
  | none => exact stays
  | some caller =>
    obtain ⟨wish, phase⟩ := caller
    cases phase with
    | fetching f landing =>
      by_cases due : landing ≤ s.now
      · simp only [if_pos due]
        refine .lands index f wish.signature wish.fetchResult ⟨_, landing, found, rfl, rfl⟩
          ⟨index, _, landing, rfl, found, rfl, due, rfl, rfl⟩ rfl ?_
        intro j g other
        exact leads_setPhase_idle (s := { s with cache := _ }) found (by simp)
      · simp only [if_neg due]
        exact stays
    | following f =>
      simp only
      split
      · exact stays
      · refine .quiet (fun _ => rfl) rfl ?_
        intro j g other
        exact leads_setPhase_still found (by simp) (by simp)
      · exact lookUp_effect (fun _ => rfl) rfl (fun _ _ _ => Iff.rfl) found (by simp)
    | _ => exact stays

theorem leave_effect (s : Session) (index : Nat) :
    Effect s (.leave index) (s.happen (.leave index)) := by
  simp only [happen, leave]
  cases found : s.callers[index]? with
  | none => exact .quiet (fun _ => rfl) rfl (fun _ _ _ => Iff.rfl)
  | some caller =>
    obtain ⟨wish, phase⟩ := caller
    cases phase with
    | fetching f landing =>
      refine .givesUp index f wish.signature ⟨_, landing, found, rfl, rfl⟩ rfl rfl ?_
      intro j g other
      exact leads_setPhase_idle (s := { s with cache := _ }) found (by simp)
    | _ =>
      refine .quiet (fun _ => rfl) rfl ?_
      intro j g other
      exact leads_setPhase_still found (by simp) (by simp)

theorem happen_effect (s : Session) (event : SessionEvent) : Effect s event (s.happen event) := by
  cases event with
  | arrive wish => exact s.arrive_effect wish
  | advance index => exact s.advance_effect index
  | leave index => exact s.leave_effect index
  | invalidate signature =>
    exact .forgets (s.cache.invalidate_eq_forget signature) (fun _ _ _ => Iff.rfl)
  | invalidateStarting start => exact .forgets rfl (fun _ _ _ => Iff.rfl)
  | clear => exact .forgets s.cache.clear_eq_forget (fun _ _ _ => Iff.rfl)
  | pass moment => exact .quiet (fun _ => rfl) rfl (fun _ _ _ => Iff.rfl)

end Session

end ProxyConsole.Cache
